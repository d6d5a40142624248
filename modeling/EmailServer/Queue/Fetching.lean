import Mathlib.Data.List.Dedup
import EmailServer.Queue.Lease

/-! # Fetching on a disk that does not fail

Of the messages, what a fetch finds, takes and moves. Every message lies in one
directory; those whose lease has run out go back to `active`, and the first that
is found there and not empty is handed out.
-/

namespace EmailServer.Queue

open QueueState

/-! ## Where a message lies -/

/-- The message has one file, or none if it has no home. -/
def Lies (s : Disk QueuePath) (id : Bytes) (home : Option QueueDir) (f : File) : Prop :=
  ∀ dir, s.files (msgPath dir id) = if home = some dir then some f else none

/-- The message files of an identifier are untouched. -/
def Same (s t : Disk QueuePath) (id : Bytes) : Prop :=
  ∀ dir, t.files (msgPath dir id) = s.files (msgPath dir id)

/-- Every message has one home, and no directory is in the way of a file. -/
structure Placed (s : Disk QueuePath) : Prop where
  named : ∀ dir id f, s.files (msgPath dir id) = some f → id ≠ []
  once : ∀ dir id f, s.files (msgPath dir id) = some f → Lies s id (some dir) f
  plain : ∀ p, s.dirs p = false

section Disks

variable {s t u : Disk QueuePath} {id other : Bytes} {f g : File} {dir : QueueDir}
  {place : Option QueueDir}

theorem Lies.found (lies : Lies s id (some dir) f) : s.files (msgPath dir id) = some f := by
  rw [lies dir, if_pos rfl]

theorem Lies.elsewhere (lies : Lies s id place f) (away : place ≠ some dir) :
    s.files (msgPath dir id) = none := by
  rw [lies dir, if_neg away]

theorem Lies.unique {dir' : QueueDir} (lies : Lies s id (some dir) f)
    (lies' : Lies s id (some dir') g) : dir = dir' ∧ f = g := by
  have known := lies' dir
  rw [lies.found] at known
  split at known
  · rename_i same
    exact ⟨(Option.some.inj same).symm, Option.some.inj known⟩
  · cases known

theorem Lies.carry (lies : Lies s id place f) (same : Same s t id) : Lies t id place f :=
  fun dir => (same dir).trans (lies dir)

theorem Same.trans (first : Same s t id) (second : Same t u id) : Same s u id :=
  fun dir => (second dir).trans (first dir)

theorem same_of_effect {op : FsOp QueuePath QueueScan} {r : op.Res}
    (effect : reliable.Effect op s r t) (spares : ∀ dir, msgPath dir id ∉ op.writes) :
    Same s t id := by
  intro dir
  apply Platform.effect_frame effect
  rintro q member rfl
  exact spares dir member

theorem Placed.moved (placed : Placed s) (was : Lies s id (some dir) f) (lies : Lies t id place f)
    (others : ∀ other, other ≠ id → Same s t other) (dirs : t.dirs = s.dirs) : Placed t := by
  refine ⟨fun dir' name g found => ?_, fun dir' name g found => ?_, fun p => ?_⟩
  · by_cases this : name = id
    · rw [this]
      exact placed.named dir id f was.found
    · exact placed.named dir' name g ((others name this dir').symm.trans found)
  · by_cases this : name = id
    · subst this
      have known := lies dir'
      rw [found] at known
      split at known
      · rename_i here
        cases here
        cases known
        exact lies
      · cases known
    · have before := placed.once dir' name g ((others name this dir').symm.trans found)
      exact before.carry (others name this)
  · rw [dirs]
    exact placed.plain p

theorem rename_moves {dst : QueueDir} {moved : Bool} (placed : Placed s)
    (lies : Lies s id (some dir) f)
    (effect : reliable.Effect (.rename (msgPath dir id) (msgPath dst id)) s moved t) :
    moved = true ∧ Lies t id (some dst) f ∧ (∀ other, other ≠ id → Same s t other) ∧ Placed t ∧
      t.now = s.now := by
  have others : ∀ other, other ≠ id → Same s t other := fun other different =>
    same_of_effect effect (by simp [FsOp.writes, msgPath_inj, different])
  cases moved with
  | false =>
      obtain ⟨refused | missing, -⟩ := effect
      · exact refused.elim
      · exact absurd (missing.symm.trans lies.found) (by simp)
  | true =>
      obtain ⟨g, found, rfl⟩ := effect
      obtain rfl : f = g := Option.some.inj (lies.found.symm.trans found)
      have locate : ∀ p, reliable.locate p = p := fun _ => rfl
      simp only [locate] at others ⊢
      have arrived : Lies (s.move (msgPath dir id) (msgPath dst id) f) id (some dst) f := by
        intro place
        by_cases there : place = dst
        · rw [there, Disk.move_files, Function.update_self, if_pos rfl]
        rw [if_neg fun same => there (Option.some.inj same).symm]
        have notDst : msgPath place id ≠ msgPath dst id := fun same => there (msgPath_inj.mp same).1
        rw [Disk.move_files, Function.update_of_ne notDst]
        by_cases left : place = dir
        · rw [left, Function.update_self]
        · have notSrc : msgPath place id ≠ msgPath dir id := fun same => left (msgPath_inj.mp same).1
          rw [Function.update_of_ne notSrc, lies place, if_neg fun same => left (Option.some.inj same).symm]
      exact ⟨trivial, arrived, others, placed.moved lies arrived others rfl, rfl⟩

theorem remove_removes {removed : Option Bool} (placed : Placed s) (lies : Lies s id (some dir) f)
    (effect : reliable.Effect (.remove (msgPath dir id)) s removed t) :
    removed = some true ∧ Lies t id none f ∧ (∀ other, other ≠ id → Same s t other) ∧ Placed t ∧
      t.now = s.now := by
  have others : ∀ other, other ≠ id → Same s t other := fun other different =>
    same_of_effect effect (by simp [FsOp.writes, msgPath_inj, different])
  cases removed with
  | none => exact effect.1.elim
  | some removed =>
      obtain ⟨rfl, rfl⟩ := effect
      have there : s.files (reliable.locate (msgPath dir id)) = some f := lies.found
      have gone : Lies (s.clear (reliable.locate (msgPath dir id))) id none f := by
        intro dir'
        by_cases here : dir' = dir
        · rw [here]
          exact Function.update_self _ _ _
        · have away : msgPath dir' id ≠ reliable.locate (msgPath dir id) := fun same =>
            here (msgPath_inj.mp same).1
          rw [Disk.clear_files, Function.update_of_ne away]
          exact lies.elsewhere fun same => here (Option.some.inj same).symm
      exact ⟨by rw [there]; rfl, gone, others, placed.moved lies gone others rfl, rfl⟩

theorem exists_tells {p : QueuePath} {found : Option Bool} (placed : Placed s)
    (effect : reliable.Effect (.fileExists p) s found t) :
    found = some (s.files p).isSome ∧ t = s := by
  cases found with
  | none => exact effect.1.elim
  | some found =>
      obtain ⟨rfl, rfl⟩ := effect
      simp [Disk.present, reliable, platform, placed.plain]

theorem read_tells {p : QueuePath} {raw : Option Bytes} (found : s.files p = some f)
    (effect : reliable.Effect (.readFile p) s raw t) : raw = some f.data ∧ t = s :=
  (Platform.effect_readFile (fun fails => fails) (by
    show (s.files p).map File.data = _
    rw [found]
    rfl)).mp effect

theorem scan_tells {d : QueueScan} {entries : Option (List QueuePath)}
    (effect : reliable.Effect (.iterate d) s entries t) :
    ∃ found, entries = some found ∧ exactScan s d found ∧ t = s := by
  cases entries with
  | none => exact effect.1.elim
  | some found => exact ⟨found, rfl, effect⟩

end Disks

theorem runs_disk {ι α : Type} {W : Platform QueuePath QueueScan} {i : ι} {p : QueueProg α}
    {s t : QueueState ι} {a : α} (run : p.Runs (sem W i) s a t) :
    p.Runs W.Effect s.disk a t.disk := by
  induction p generalizing s with
  | pure value => exact ⟨run.1, congrArg disk run.2⟩
  | step op next ih =>
      obtain ⟨r, mid, effect, rest⟩ := run
      exact ⟨r, mid.disk, effect.1, ih r rest⟩

/-! ## A fetch -/

/-- The lease on the message has run out. -/
def Expired (s : Disk QueuePath) (id : Bytes) : Prop :=
  ∃ f, s.files (msgPath .inflight id) = some f ∧ leasedUntil f < s.now

/-- What a fetch does to a message that it does not hand out: an empty one it puts aside. -/
inductive Left (s t : Disk QueuePath) (id : Bytes) : Prop
  | stays : Same s t id → Left s t id
  | aside {f} : s.files (msgPath .active id) = some f → f.data = [] →
      Lies t id (some .permanentFail) f → Left s t id

/-- The message waits or has been handed out, and its outcome is open. -/
def Pending (s : Disk QueuePath) (id : Bytes) (f : File) : Prop :=
  Lies s id (some .active) f ∨ Lies s id (some .inflight) f

/-- A fetch can hand it out. -/
def Ready (s : Disk QueuePath) (id : Bytes) (f : File) : Prop :=
  Lies s id (some .active) f ∨ (Lies s id (some .inflight) f ∧ leasedUntil f < s.now)

/-- What a pass does to a message that it does not attempt. -/
inductive Passed (s t : Disk QueuePath) (id : Bytes) : Prop
  | stays : Same s t id → Passed s t id
  | reclaimed {f} : Lies s id (some .inflight) f → Lies t id (some .active) f → Passed s t id
  | aside {f} : Pending s id f → f.data = [] → Lies t id (some .permanentFail) f → Passed s t id

/-- One message that is ready and not empty is taken and put in its place, unless there is none. -/
structure Pass (place : QueueMessage → Option QueueDir) (s t : Disk QueuePath)
    (fetched : Option QueueMessage) : Prop where
  placed : Placed t
  now : t.now = s.now
  taken : ∀ msg, fetched = some msg → ∃ f, Pending s msg.id f ∧ f.data ≠ [] ∧
    msg = parseMessage msg.id f.data ∧ Lies t msg.id (place msg) f
  others : ∀ id, (∀ msg, fetched = some msg → msg.id ≠ id) → Passed s t id
  idle : fetched = none → ∀ id f, Ready s id f → Lies t id (some .permanentFail) f

theorem Left.before {s t u : Disk QueuePath} {id : Bytes} (left : Left t u id) (same : Same s t id) :
    Left s u id := by
  cases left with
  | stays still => exact .stays (same.trans still)
  | aside found empty lies => exact .aside ((same .active).symm.trans found) empty lies

section Fetch

variable {s t : Disk QueuePath} {id : Bytes} {f : File} {dir : QueueDir}

theorem isLeaseExpired_tells {p : QueuePath} {answer : Except Exn Bool} (found : s.files p = some f)
    (run : (isLeaseExpired p).Runs reliable.Effect s answer t) :
    answer = .ok (decide (leasedUntil f < s.now)) ∧ t = s := by
  obtain ⟨last, u, looked, run⟩ := run
  cases last with
  | none =>
      obtain ⟨refused | missing, -⟩ := looked
      · exact refused.elim
      · exact absurd (missing.symm.trans found) (by simp)
  | some last =>
      obtain ⟨⟨g, found', rfl⟩, rfl⟩ := looked
      obtain rfl : f = g := Option.some.inj (found.symm.trans found')
      obtain ⟨now, v, ⟨rfl, rfl⟩, rfl, rfl⟩ := run
      exact ⟨rfl, rfl⟩

/-- The entries of a directory, of which the messages are there. -/
structure Entries (s : Disk QueuePath) (dir : QueueDir) (entries : List QueuePath) : Prop where
  nodup : entries.Nodup
  inside : ∀ p ∈ entries, p.dir = dir
  present : ∀ id, msgPath dir id ∈ entries → s.files (msgPath dir id) ≠ none

theorem Entries.tail {p : QueuePath} {rest : List QueuePath}
    (entries : Entries s dir (p :: rest)) : Entries s dir rest where
  nodup := entries.nodup.of_cons
  inside q member := entries.inside q (.tail _ member)
  present _ member := entries.present _ (.tail _ member)

theorem Entries.carry {rest : List QueuePath} (entries : Entries s dir rest)
    (same : ∀ id, msgPath dir id ∈ rest → Same s t id) : Entries t dir rest where
  nodup := entries.nodup
  inside := entries.inside
  present _ member := by
    rw [same _ member dir]
    exact entries.present _ member

theorem Entries.scanned {found : List QueuePath} (exact_ : exactScan s (.directory dir) found) :
    Entries s dir found where
  nodup := exact_.1
  inside p member := ((exact_.2 p).mp member).2
  present _ member := ((exact_.2 _).mp member).1

theorem Entries.head {p : QueuePath} {rest : List QueuePath} (entries : Entries s dir (p :: rest))
    (named : isMsg p = true) : ∃ id f, p = msgPath dir id ∧ s.files (msgPath dir id) = some f ∧
      ∀ other, msgPath dir other ∈ rest → other ≠ id := by
  have here : p = msgPath dir (FileName.stem p.name) := by
    rw [← isMsg_path named, ← entries.inside p (.head _)]
  have member : msgPath dir (FileName.stem p.name) ∈ p :: rest := by
    rw [← here]
    exact .head _
  obtain ⟨f, found⟩ := Option.ne_none_iff_exists'.mp (entries.present _ member)
  refine ⟨_, f, here, found, ?_⟩
  rintro other member rfl
  exact (List.nodup_cons.mp entries.nodup).1 (here ▸ member)

theorem Entries.skip {p : QueuePath} {rest : List QueuePath} (placed : Placed s)
    (entries : Entries s dir (p :: rest)) (other : ¬ isMsg p = true) :
    msgPath dir id ∈ p :: rest ↔ msgPath dir id ∈ rest := by
  simp only [List.mem_cons, or_iff_right_iff_imp]
  rintro rfl
  obtain ⟨f, found⟩ := Option.ne_none_iff_exists'.mp (entries.present id (.head _))
  exact absurd (isMsg_msgPath dir (placed.named _ _ _ found)) other

theorem mem_others {name : Bytes} {rest : List QueuePath} (other : id ≠ name) :
    msgPath dir id ∈ msgPath dir name :: rest ↔ msgPath dir id ∈ rest := by
  simp [msgPath_inj, other]

theorem Expired.congr (same : Same s t id) (now : t.now = s.now) : Expired t id ↔ Expired s id := by
  simp only [Expired, now, same .inflight]

/-- Of the entries, those whose lease has run out move to `active`. -/
theorem reclaimExpired_moves {found : List QueuePath} {result : Except Exn Unit}
    (entries : Entries s .inflight found) (placed : Placed s)
    (run : (reclaimExpired found).Runs reliable.Effect s result t) :
    result = .ok () ∧ Placed t ∧ t.now = s.now ∧
      ∀ id, (msgPath .inflight id ∈ found → Expired s id →
          ∀ f, Lies s id (some .inflight) f → Lies t id (some .active) f) ∧
        ((msgPath .inflight id ∈ found → ¬ Expired s id) → Same s t id) := by
  induction found generalizing s with
  | nil =>
      obtain ⟨rfl, rfl⟩ := run
      exact ⟨rfl, placed, rfl, fun id => ⟨by simp, fun _ _ => rfl⟩⟩
  | cons p rest ih =>
      unfold reclaimExpired at run
      split at run
      · rename_i named
        obtain ⟨name, f, rfl, found, fresh⟩ := entries.head named
        have lies := placed.once _ _ _ found
        obtain ⟨answer, u, asked, run⟩ := Prog.runs_bind.mp run
        obtain ⟨rfl, rfl⟩ := isLeaseExpired_tells found asked
        by_cases expired : leasedUntil f < u.now
        · rw [decide_eq_true expired] at run
          obtain ⟨moved, v, effect, run⟩ := run
          obtain ⟨-, arrived, others, placed', now⟩ := rename_moves placed lies effect
          obtain ⟨done, placed'', now', each⟩ :=
            ih (entries.tail.carry fun id member => others id (fresh id member)) placed' run
          refine ⟨done, placed'', now'.trans now, fun id => ?_⟩
          by_cases this : id = name
          · subst this
            have quiet : Same v t id := (each id).2 fun member => absurd rfl (fresh id member)
            refine ⟨fun _ _ g liesG => ?_, fun running => ?_⟩
            · obtain rfl : f = g := Option.some.inj (found.symm.trans liesG.found)
              exact arrived.carry quiet
            · exact absurd ⟨f, found, expired⟩ (running (.head _))
          · have same := others id this
            rw [mem_others this, ← Expired.congr same now]
            refine ⟨fun inside late g liesG => (each id).1 inside late g (liesG.carry same), ?_⟩
            exact fun running => same.trans ((each id).2 running)
        · rw [decide_eq_false expired] at run
          obtain ⟨done, placed', now, each⟩ := ih entries.tail placed run
          refine ⟨done, placed', now, fun id => ?_⟩
          by_cases this : id = name
          · subst this
            have running : ¬ Expired u id := by
              rintro ⟨g, found', late⟩
              obtain rfl : f = g := Option.some.inj (found.symm.trans found')
              exact expired late
            exact ⟨fun _ late => absurd late running, fun _ => (each id).2 fun _ => running⟩
          · rw [mem_others this]
            exact each id
      · rename_i other
        obtain ⟨done, placed', now, each⟩ := ih entries.tail placed run
        refine ⟨done, placed', now, fun id => ?_⟩
        rw [entries.skip placed other]
        exact each id

/-- What the loop over `active` comes to: the first message that is not empty is handed out. -/
structure Leasing (s t : Disk QueuePath) (found : List QueuePath) (result : Option QueueMessage) :
    Prop where
  placed : Placed t
  now : t.now = s.now
  left : ∀ id, (∀ msg, result = some msg → msg.id ≠ id) → Left s t id
  taken : ∀ msg, result = some msg → ∃ f, s.files (msgPath .active msg.id) = some f ∧ f.data ≠ [] ∧
    msg = parseMessage msg.id f.data ∧ Lies t msg.id (some .inflight) f
  discards : result = none → ∀ id, msgPath .active id ∈ found → ∃ f, Lies t id (some .permanentFail) f
  quiet : ∀ id, msgPath .active id ∉ found → Same s t id

section Leasing

variable {name : Bytes} {rest : List QueuePath} {result : Option QueueMessage}

theorem Leasing.handed (found : s.files (msgPath .active name) = some f) (nonempty : f.data ≠ [])
    (placed : Placed t) (now : t.now = s.now) (arrived : Lies t name (some .inflight) f)
    (others : ∀ id, id ≠ name → Same s t id) :
    Leasing s t (msgPath .active name :: rest) (some (parseMessage name f.data)) where
  placed := placed
  now := now
  left id handed := .stays (others id (Ne.symm (handed _ rfl)))
  taken msg handed := by
    cases handed
    exact ⟨f, found, nonempty, rfl, arrived⟩
  discards nothing := by cases nothing
  quiet id member := others id fun same => member (same ▸ .head _)

theorem Leasing.aside {u : Disk QueuePath} (found : s.files (msgPath .active name) = some f)
    (empty : f.data = []) (now : u.now = s.now) (aside : Lies u name (some .permanentFail) f)
    (others : ∀ id, id ≠ name → Same s u id) (fresh : ∀ id, msgPath .active id ∈ rest → id ≠ name)
    (later : Leasing u t rest result) : Leasing s t (msgPath .active name :: rest) result := by
  have resting : Lies t name (some .permanentFail) f :=
    aside.carry (later.quiet name fun member => fresh name member rfl)
  have notName : ∀ msg, result = some msg → msg.id ≠ name := by
    rintro msg handed rfl
    obtain ⟨g, there, -⟩ := later.taken msg handed
    rw [aside.elsewhere (by decide)] at there
    cases there
  refine ⟨later.placed, later.now.trans now, fun id handed => ?_, fun msg handed => ?_,
    fun nothing id member => ?_, fun id member => ?_⟩
  · by_cases this : id = name
    · rw [this]
      exact .aside found empty resting
    · exact (later.left id handed).before (others id this)
  · obtain ⟨g, there, taken⟩ := later.taken msg handed
    exact ⟨g, (others msg.id (notName msg handed) .active).symm.trans there, taken⟩
  · by_cases this : id = name
    · exact ⟨f, this ▸ resting⟩
    · exact later.discards nothing id ((mem_others this).mp member)
  · have this : id ≠ name := fun same => member (same ▸ .head _)
    exact (others id this).trans (later.quiet id fun inside => member (.tail _ inside))

/-- The loop leases its first message: it returns it, or puts it aside and goes on. -/
theorem leaseFirst_message (placed : Placed s) (found : s.files (msgPath .active name) = some f)
    (run : (leaseFirst (msgPath .active name :: rest)).Runs reliable.Effect s result t) :
    (f.data ≠ [] ∧ result = some (parseMessage name f.data) ∧ Placed t ∧ t.now = s.now ∧
      Lies t name (some .inflight) f ∧ ∀ id, id ≠ name → Same s t id) ∨
    (f.data = [] ∧ ∃ u, Placed u ∧ u.now = s.now ∧ Lies u name (some .permanentFail) f ∧
      (∀ id, id ≠ name → Same s u id) ∧ (leaseFirst rest).Runs reliable.Effect u result t) := by
  have nonempty := placed.named _ _ _ found
  have lies := placed.once _ _ _ found
  rw [leaseFirst, if_pos (isMsg_msgPath .active nonempty)] at run
  obtain ⟨there, u, looked, run⟩ := run
  obtain ⟨rfl, rfl⟩ := exists_tells placed looked
  have away : some QueueDir.active ≠ some .inflight := by decide
  have free : u.files ⟨.inflight, (msgPath .active name).name⟩ = none := lies.elsewhere away
  rw [free] at run
  obtain ⟨leased, v, effect, run⟩ := run
  obtain ⟨rfl, arrived, others, placed', now⟩ := rename_moves placed lies effect
  obtain ⟨verified, w, looked, run⟩ := run
  obtain ⟨rfl, rfl⟩ := exists_tells placed' looked
  have there : w.files ⟨.inflight, (msgPath .active name).name⟩ = some f := arrived.found
  rw [there] at run
  obtain ⟨raw, x, read, run⟩ := run
  obtain ⟨rfl, rfl⟩ := read_tells there read
  cases content : f.data with
  | nil =>
      rw [content] at run
      obtain ⟨moved, y, effect', run⟩ := run
      obtain ⟨-, aside, others', placed'', now'⟩ := rename_moves placed' arrived effect'
      exact .inr ⟨rfl, y, placed'', now'.trans now, aside,
        fun id other => (others id other).trans (others' id other), run⟩
  | cons c data =>
      rw [content] at run
      obtain ⟨rfl, rfl⟩ := run
      have stem : FileName.stem (msgPath .active name).name = name := msgName_stem nonempty
      exact .inl ⟨by simp, by rw [stem], placed', now, arrived, others⟩

end Leasing

theorem leaseFirst_takes {found : List QueuePath} {result : Option QueueMessage}
    (entries : Entries s .active found) (placed : Placed s)
    (run : (leaseFirst found).Runs reliable.Effect s result t) : Leasing s t found result := by
  induction found generalizing s with
  | nil =>
      obtain ⟨rfl, rfl⟩ := run
      exact ⟨placed, rfl, fun _ _ => .stays fun _ => rfl, by simp, by simp, fun _ _ _ => rfl⟩
  | cons p rest ih =>
      by_cases named : isMsg p = true
      · obtain ⟨name, f, rfl, found, fresh⟩ := entries.head named
        rcases leaseFirst_message placed found run with ⟨content, rfl, placed', now, arrived, others⟩ |
          ⟨empty, u, placed', now, aside, others, run⟩
        · exact .handed found content placed' now arrived others
        · have carried := entries.tail.carry fun id member => others id (fresh id member)
          exact .aside found empty now aside others fresh (ih carried placed' run)
      · rw [leaseFirst, if_neg named] at run
        obtain ⟨placed', now, left, taken, aside, quiet⟩ := ih entries.tail placed run
        refine ⟨placed', now, left, taken, ?_, ?_⟩ <;> simpa only [entries.skip placed named]

/-- A fetch hands out one that is ready. -/
theorem fetchReady_takes {result : Except Exn (Option QueueMessage)} (placed : Placed s)
    (run : fetchReady.Runs reliable.Effect s result t) :
    ∃ fetched, result = .ok fetched ∧ Pass (fun _ => some .inflight) s t fetched := by
  obtain ⟨leased, u, scan, run⟩ := run
  obtain ⟨leased, rfl, exact_, rfl⟩ := scan_tells scan
  obtain ⟨reclaimed, v, run₁, run⟩ := Prog.runs_bind.mp run
  obtain ⟨rfl, placed', now, each⟩ := reclaimExpired_moves (.scanned exact_) placed run₁
  obtain ⟨ready, w, scan, run⟩ := run
  obtain ⟨ready, rfl, exact', rfl⟩ := scan_tells scan
  have lease : ((leaseFirst ready).map .ok).Runs reliable.Effect w result t := run
  obtain ⟨fetched, leasing, rfl⟩ := Prog.runs_map.mp lease
  obtain ⟨placed'', now', left, taken, aside, -⟩ := leaseFirst_takes (.scanned exact') placed' leasing
  -- what the first loop did to a message
  have reclaim : ∀ id, Same u w id ∨
      ∃ f, Lies u id (some .inflight) f ∧ leasedUntil f < u.now ∧ Lies w id (some .active) f := by
    intro id
    by_cases late : Expired u id
    · obtain ⟨f, found, old⟩ := late
      have lies := placed.once _ _ _ found
      have member : msgPath .inflight id ∈ leased := (exact_.2 _).mpr ⟨by simp [found], rfl⟩
      exact .inr ⟨f, lies, old, (each id).1 member ⟨f, found, old⟩ f lies⟩
    · exact .inl ((each id).2 fun _ => late)
  have origin : ∀ {id f}, Lies w id (some .active) f → Ready u id f := by
    intro id f waits
    rcases reclaim id with same | ⟨g, lies, old, moved⟩
    · exact .inl fun dir => (same dir).symm.trans (waits dir)
    · obtain ⟨-, rfl⟩ := waits.unique moved
      exact .inr ⟨lies, old⟩
  have pending : ∀ {id f}, Ready u id f → Pending u id f := fun ready => ready.imp_right And.left
  refine ⟨fetched, rfl, placed'', now'.trans now, ?_, ?_, ?_⟩
  · intro msg handed
    obtain ⟨f, found, rest⟩ := taken msg handed
    exact ⟨f, pending (origin (placed'.once _ _ _ found)), rest⟩
  · intro id handed
    cases left id handed with
    | stays still =>
        rcases reclaim id with same | ⟨f, lies, -, moved⟩
        · exact .stays (same.trans still)
        · exact .reclaimed lies (moved.carry still)
    | aside found empty lies => exact .aside (pending (origin (placed'.once _ _ _ found))) empty lies
  · intro nothing id f ready
    have waits : Lies w id (some .active) f := by
      rcases reclaim id with same | ⟨g, lies, -, moved⟩
      · rcases ready with waits | ⟨lies, old⟩
        · exact waits.carry same
        · have member : msgPath .inflight id ∈ leased := (exact_.2 _).mpr ⟨by simp [lies.found], rfl⟩
          exact (each id).1 member ⟨f, lies.found, old⟩ f lies
      · rcases ready with waits | ⟨lies', -⟩
        · cases (lies.unique waits).1
        · obtain ⟨-, rfl⟩ := lies.unique lies'
          exact moved
    obtain ⟨g, resting⟩ := aside nothing id ((exact'.2 _).mpr ⟨by simp [waits.found], rfl⟩)
    cases left id (by simp [nothing]) with
    | stays still => cases (resting.unique (waits.carry still)).1
    | aside found empty lies =>
        obtain rfl := Option.some.inj (waits.found.symm.trans found)
        exact lies

end Fetch

/-! ## Calls come to their end -/

/-- No directory is in the way of a file, and the files can be listed. -/
structure Tidy (s : Disk QueuePath) : Prop where
  plain : ∀ p, s.dirs p = false
  listed : ∃ ps : List QueuePath, ∀ p, s.files p ≠ none → p ∈ ps

/-- The operations of a queue make no directories. -/
def MakesNone (op : FsOp QueuePath QueueScan) : Prop := ∀ p, op ≠ .createDirectories p

section Tidiness

variable {s t : Disk QueuePath}

theorem Tidy.step {W : Platform QueuePath QueueScan} {op : FsOp QueuePath QueueScan} {r : op.Res}
    (tidy : Tidy s) (makes : MakesNone op) (effect : W.Effect op s r t) : Tidy t := by
  obtain ⟨plain, ps, listed⟩ := tidy
  refine ⟨fun p => ?_, ps ++ op.writes.map W.locate, fun p found => ?_⟩
  · rw [Platform.effect_dirs makes effect]
    exact plain p
  · by_contra unlisted
    rw [List.mem_append, not_or] at unlisted
    have untouched : ∀ q ∈ op.writes, p ≠ W.locate q := fun q member same =>
      unlisted.2 (List.mem_map.mpr ⟨q, member, same.symm⟩)
    rw [Platform.effect_frame effect untouched] at found
    exact unlisted.1 (listed p found)

theorem Tidy.scan (tidy : Tidy s) (d : QueueScan) : ∃ entries, exactScan s d entries := by
  classical
  obtain ⟨-, ps, listed⟩ := tidy
  refine ⟨ps.dedup.filter fun p => decide (s.files p ≠ none ∧ d.covers p),
    (List.nodup_dedup ps).filter _, fun p => ?_⟩
  simp only [List.mem_filter, List.mem_dedup, decide_eq_true_eq, and_iff_right_iff_imp]
  exact fun known => listed p known.1

theorem shuffle_answers {op : FsOp QueuePath QueueScan} (tidy : Tidy s) (shuffles : Shuffles op) :
    ∃ r t, reliable.Effect op s r t := by
  cases op with
  | rename src dst =>
      cases found : s.files src with
      | none => exact ⟨false, s, .inr found, rfl⟩
      | some f => exact ⟨true, _, f, found, rfl⟩
  | remove p => exact ⟨some _, _, rfl, rfl⟩
  | fileExists p => exact ⟨some _, s, rfl, rfl⟩
  | iterate d =>
      obtain ⟨entries, exact_⟩ := tidy.scan d
      exact ⟨some entries, s, exact_, rfl⟩
  | lastWriteTime p =>
      cases found : s.files p with
      | none => exact ⟨none, s, .inr found, rfl⟩
      | some f => exact ⟨some f.written, s, ⟨f, found, rfl⟩, rfl⟩
  | readFile p =>
      cases found : s.files p with
      | none => exact ⟨none, s, .inr found, rfl⟩
      | some f => exact ⟨some f.data, s, ⟨f, found, .inl rfl⟩, rfl⟩
  | clockNow => exact ⟨s.now, s, rfl, rfl⟩
  | createFile | writeFile | flushFileBuffers | closeHandle | moveFileEx | deleteFile
  | createDirectories | freshId | log => exact shuffles.elim

theorem shuffle_makesNone {op : FsOp QueuePath QueueScan} (shuffles : Shuffles op) :
    MakesNone op := by
  rintro p rfl
  exact shuffles

variable {ι : Type} {i : ι}

theorem shuffles_end {α : Type} {p : QueueProg α} {s : QueueState ι} (tidy : Tidy s.disk)
    (uses : p.Uses Shuffles) : ∃ a t, p.Runs (sem reliable i) s a t := by
  induction p generalizing s with
  | pure value => exact ⟨value, s, rfl, rfl⟩
  | step op next ih =>
      obtain ⟨r, disk, effect⟩ := shuffle_answers tidy uses.1
      let mid : QueueState ι :=
        ⟨disk, s.ownerAfter i op r, s.publishedAfter op r, s.deliveredAfter op r⟩
      obtain ⟨a, t, run⟩ :=
        ih r (s := mid) (tidy.step (shuffle_makesNone uses.1) effect) (uses.2 r)
      exact ⟨a, t, r, mid, ⟨effect, rfl, rfl, rfl⟩, run⟩

/-- What `enqueue` asks for: it writes a temporary file, and moves it into `active`. -/
def Enqueues : FsOp QueuePath QueueScan → Prop
  | .iterate _ | .freshId | .closeHandle _ | .fileExists _ => True
  | .createFile p | .writeFile p _ | .flushFileBuffers p | .deleteFile p => ∃ id, p = tmpPath id
  | .moveFileEx src dst => ∃ id, src = tmpPath id ∧ dst = msgPath .active id
  | _ => False

theorem atomicWriteFile_enqueues (id content : Bytes) :
    (AtomicWrite.atomicWriteFile (tmpPath id) (msgPath .active id) content : QueueProg _).Uses
      Enqueues := by
  have discard : (AtomicWrite.discard (tmpPath id) : QueueProg _).Uses Enqueues :=
    ⟨⟨id, rfl⟩, fun _ => trivial⟩
  have abandon : (AtomicWrite.abandon (tmpPath id) : QueueProg _).Uses Enqueues :=
    ⟨trivial, fun _ => discard⟩
  refine ⟨⟨id, rfl⟩, fun created => ?_⟩
  cases created with
  | false => trivial
  | true =>
  refine ⟨⟨id, rfl⟩, fun bytesWritten => ?_⟩
  dsimp only
  split
  · exact abandon
  refine ⟨⟨id, rfl⟩, fun flushed => ?_⟩
  cases flushed with
  | false => exact abandon
  | true =>
  refine ⟨trivial, fun _ => ⟨⟨id, rfl, rfl⟩, fun moved => ?_⟩⟩
  cases moved with
  | false => exact discard
  | true => exact ⟨trivial, fun found => by cases found <;> trivial⟩

theorem enqueue_enqueues (sender recipient raw : Bytes) :
    (enqueue sender recipient raw).Uses Enqueues := by
  refine ⟨trivial, fun entries => ?_⟩
  cases entries with
  | none => trivial
  | some entries =>
      dsimp only
      split
      · trivial
      refine ⟨trivial, fun id => (atomicWriteFile_enqueues id _).bind fun written => ?_⟩
      cases written with
      | error e => trivial
      | ok stored => cases stored <;> trivial

theorem enqueues_makesNone {op : FsOp QueuePath QueueScan} (enqueues : Enqueues op) :
    MakesNone op := by
  rintro p rfl
  exact enqueues

theorem call_makesNone (call : Call) : call.program.Uses MakesNone := by
  by_cases enqueues : ∃ sender recipient raw, call = .enqueue sender recipient raw
  · obtain ⟨sender, recipient, raw, rfl⟩ := enqueues
    exact ((enqueue_enqueues sender recipient raw).weaken fun _ => enqueues_makesNone).bind
      fun _ => trivial
  · refine (call_uses call fun sender recipient raw same => ?_).weaken fun op => shuffle_makesNone
    exact enqueues ⟨sender, recipient, raw, same⟩

/-- The disk of a queue is tidy at all times. -/
theorem reachable_tidy [DecidableEq ι] {pool : QueuePool ι} (reached : Reachable pool) :
    Tidy pool.shared.disk := by
  let D : Discipline ι _ _ (QueueState ι) :=
    { Discipline.unguarded (sem concurrent) with valid := fun s => Tidy s.disk }
  have guaranteed : Pool.Guaranteed D IsCall Tick fun _ _ => True := by
    refine ⟨?_, ?_, fun _ _ _ _ _ => trivial⟩
    · rintro i p s ⟨call, rfl⟩ -
      refine Discipline.Safe.of_uses (D := D) ((call_makesNone call).bind fun _ => trivial) ?_
        fun _ _ _ => trivial
      exact fun op s r t makes tidy step => ⟨tidy.step makes step.1, trivial, fun _ _ => trivial⟩
    · rintro s t ⟨later, -, rfl⟩ ⟨plain, listed⟩
      exact ⟨⟨plain, listed⟩, trivial, fun _ => trivial⟩
  obtain ⟨now, steps⟩ := reached
  have first : D.valid (initial now) := ⟨fun _ => rfl, [], by simp [initial]⟩
  exact (Pool.consistent guaranteed steps (Pool.start_consistent first)).valid

theorem reachable_placed [DecidableEq ι] {pool : QueuePool ι} (reached : Reachable pool) :
    Placed pool.shared.disk := by
  have valid := (reachable_consistent reached).valid
  refine ⟨fun dir id f found => ?_, fun dir id f found other => ?_, (reachable_tidy reached).plain⟩
  · have there : pool.shared.disk.files (msgPath dir id) ≠ none := by simp [found]
    exact valid.nonempty there
  by_cases this : other = dir
  · rw [this, found, if_pos rfl]
  · rw [(valid.alive found).2.2 other this, if_neg fun same => this (Option.some.inj same).symm]

end Tidiness

end EmailServer.Queue
