import EmailServer.Queue.Fetching

/-! # Passes drain the queue

Passes of retry workers, one after the other, on a disk that does not fail and with a
logger that does not throw. A pass takes a message that waits or whose lease has run out, attempts it, and leaves it
where the result puts it. So a queue is empty after as many passes as it has
messages, and a message that a killed worker left in `inflight` is attempted as
well, once its lease has run out.
-/

namespace EmailServer.Queue

open QueueState

/-! ## A pass -/

/-- What a delivery comes to. -/
abbrev Answer := Bytes → Bytes → Bytes → DeliveryResult

/-- A pass in which nothing throws. -/
def Answer.deliver (answer : Answer) : Deliver := fun sender recipient raw =>
  .ok (answer sender recipient raw)

/-- Where the result of its delivery leaves a message. -/
def home (result : DeliveryResult) : Option QueueDir :=
  if result.success then none
  else if result.permanentFailure then some .permanentFail
  else some .failure

section Pass

variable {s t : Disk QueuePath} {msg : QueueMessage} {f : File} {answer : Answer}

theorem settle_puts {result : DeliveryResult} {marked : Except Exn Unit} (placed : Placed s)
    (lies : Lies s msg.id (some .inflight) f)
    (run : (settle msg result).Runs reliable.Effect s marked t) :
    marked = .ok () ∧ Lies t msg.id (home result) f ∧ (∀ other, other ≠ msg.id → Same s t other) ∧
      Placed t ∧ t.now = s.now := by
  unfold settle at run
  rw [home]
  split at run
  · rename_i success
    rw [if_pos success]
    obtain ⟨there, u, looked, run⟩ := run
    obtain ⟨rfl, rfl⟩ := exists_tells placed looked
    rw [lies.found] at run
    obtain ⟨removed, v, effect, run⟩ := run
    obtain ⟨rfl, rest⟩ := remove_removes placed lies effect
    obtain ⟨rfl, rfl⟩ := run
    exact ⟨rfl, rest⟩
  · rename_i failed
    rw [if_neg failed]
    split at run
    · rename_i refused
      rw [if_pos refused]
      obtain ⟨moved, u, effect, rfl, rfl⟩ := run
      exact ⟨rfl, (rename_moves placed lies effect).2⟩
    · rename_i kept
      rw [if_neg kept]
      obtain ⟨moved, u, effect, rfl, rfl⟩ := run
      exact ⟨rfl, (rename_moves placed lies effect).2⟩

/-- Where a pass with this delivery puts a message. -/
def destination (answer : Answer) (msg : QueueMessage) : Option QueueDir :=
  home (answer (orUnknown msg.sender) (orUnknown msg.recipient) msg.rawData)

theorem Passed.before {u : Disk QueuePath} {id : Bytes} (passed : Passed s t id) (same : Same t u id) :
    Passed s u id := by
  cases passed with
  | stays still => exact .stays (still.trans same)
  | reclaimed lies moved => exact .reclaimed lies (moved.carry same)
  | aside pending empty resting => exact .aside pending empty (resting.carry same)

theorem runOnce_passes {outcome : Except Exn (Option QueueMessage)} (placed : Placed s)
    (run : (runOnce answer.deliver {}).Runs reliable.Effect s outcome t) :
    ∃ fetched, outcome = .ok fetched ∧ Pass (destination answer) s t fetched := by
  obtain ⟨result, u, fetch, run⟩ := Prog.runs_bind.mp run
  obtain ⟨fetched, rfl, pass⟩ := fetchReady_takes placed fetch
  cases fetched with
  | none =>
      obtain ⟨rfl, rfl⟩ := run
      exact ⟨none, rfl, pass.placed, pass.now, by simp, pass.others, pass.idle⟩
  | some msg =>
      obtain ⟨f, pending, nonempty, parsed, lies⟩ := pass.taken msg rfl
      have whole : msg.rawData ≠ [] := by
        rw [parsed]
        exact nonempty
      simp only [process, if_neg whole] at run
      obtain ⟨marked, settled, rfl⟩ := Prog.runs_map.mp run
      obtain ⟨rfl, there, others, placed', now⟩ := settle_puts pass.placed lies settled
      refine ⟨some msg, rfl, placed', now.trans pass.now, ?_, fun id handed => ?_, by simp⟩
      · rintro _ ⟨⟩
        exact ⟨f, pending, nonempty, parsed, there⟩
      · have different := handed msg rfl
        exact (pass.others id handed).before (others id different.symm)

theorem home_closed (result : DeliveryResult) :
    home result ≠ some .active ∧ home result ≠ some .inflight := by
  unfold home
  split
  · simp
  · split <;> simp

theorem Lies.settled {result : DeliveryResult} {id : Bytes} {g : File}
    (lies : Lies s id (home result) f) : ¬ Pending s id g := by
  rintro (waits | leased)
  · exact absurd ((lies.elsewhere (home_closed result).1).symm.trans waits.found) (by simp)
  · exact absurd ((lies.elsewhere (home_closed result).2).symm.trans leased.found) (by simp)

theorem Lies.aside {id : Bytes} {g : File} (lies : Lies s id (some .permanentFail) f) :
    ¬ Pending s id g := by
  rintro (waits | leased)
  · cases (lies.unique waits).1
  · cases (lies.unique leased).1

theorem Pending.unique {id : Bytes} {g : File} (pending : Pending s id f) (pending' : Pending s id g) :
    f = g := by
  rcases pending with lies | lies <;> rcases pending' with lies' | lies' <;>
    exact (lies.unique lies').2

theorem Passed.same {id : Bytes} (passed : Passed s t id) (closed : ∀ g, ¬ Pending s id g) :
    Same s t id := by
  cases passed with
  | stays still => exact still
  | reclaimed leased _ => exact absurd (.inr leased) (closed _)
  | aside pending _ _ => exact absurd pending (closed _)

theorem Passed.pending {id : Bytes} (passed : Passed s t id) (pending : Pending s id f) :
    Pending t id f ∨ (f.data = [] ∧ Lies t id (some .permanentFail) f) := by
  cases passed with
  | stays still => exact .inl (pending.imp (·.carry still) (·.carry still))
  | reclaimed leased moved =>
      obtain rfl := pending.unique (.inr leased)
      exact .inl (.inl moved)
  | aside pending' empty resting =>
      obtain rfl := pending.unique pending'
      exact .inr ⟨empty, resting⟩

theorem Pass.pending {fetched : Option QueueMessage} {id : Bytes} {g : File}
    (pass : Pass (destination answer) s t fetched) (pending : Pending t id g) :
    Pending s id g ∧ (∀ msg, fetched = some msg → msg.id ≠ id) ∧
      (Lies t id (some .inflight) g → Lies s id (some .inflight) g) := by
  have notTaken : ∀ msg, fetched = some msg → msg.id ≠ id := by
    rintro msg handed rfl
    obtain ⟨f, -, -, -, lies⟩ := pass.taken msg handed
    exact lies.settled pending
  cases pass.others id notTaken with
  | stays still =>
      have back : ∀ {dir}, Lies t id (some dir) g → Lies s id (some dir) g := fun lies place =>
        (still place).symm.trans (lies place)
      exact ⟨pending.imp back back, notTaken, back⟩
  | reclaimed lies moved =>
      rcases pending with waits | leased
      · obtain ⟨-, rfl⟩ := moved.unique waits
        exact ⟨.inr lies, notTaken, fun leased => by cases (moved.unique leased).1⟩
      · cases (moved.unique leased).1
  | aside _ _ lies => exact absurd pending lies.aside

end Pass

/-! ## A run of passes -/

/-- After these passes from `s`: what is pending was so from the start, and what is not was put
    in its place by the one pass that took it. -/
structure Progress (s : Disk QueuePath) (past : List Returned) (t : Disk QueuePath) : Prop where
  placed : Placed t
  pending : ∀ id f, Pending t id f → Pending s id f ∧
    (Lies t id (some .inflight) f → Lies s id (some .inflight) f)
  settled : ∀ r ∈ past, ∀ msg, r.outcome = .fetched (.ok (some msg)) →
    ∃ f answer, Pending s msg.id f ∧ f.data ≠ [] ∧ msg = parseMessage msg.id f.data ∧
      r.call = .runOnce answer.deliver {} ∧ Lies t msg.id (destination answer msg) f
  rest : ∀ id f, Pending s id f → (∀ r ∈ past, ¬ r.leases id) →
    Pending t id f ∨ (f.data = [] ∧ Lies t id (some .permanentFail) f)
  once : past.Pairwise fun r r' => ∀ id, r.leases id → ¬ r'.leases id

section Passes

variable {ι : Type} {s t : QueueState ι} {past : List Returned}

theorem Progress.start {s : Disk QueuePath} (placed : Placed s) : Progress s [] s where
  placed := placed
  pending _ _ pending := ⟨pending, id⟩
  settled _ member := absurd member List.not_mem_nil
  rest _ _ pending _ := .inl pending
  once := .nil

theorem Progress.pass {s t u : Disk QueuePath} {answer : Answer} {fetched : Option QueueMessage}
    {time : Nat} (progress : Progress s past t) (pass : Pass (destination answer) t u fetched) :
    Progress s (⟨time, .runOnce answer.deliver {}, .fetched (.ok fetched)⟩ :: past) u := by
  have leases : ∀ {id}, (⟨time, .runOnce answer.deliver {}, .fetched (.ok fetched)⟩ : Returned).leases id ↔
      ∃ msg, fetched = some msg ∧ msg.id = id := by
    intro id
    simp [Returned.leases]
  -- what earlier passes have settled is not pending any more
  have known : ∀ r ∈ past, ∀ id, r.leases id → ∀ g, ¬ Pending t id g := by
    rintro r member id ⟨msg, handed, rfl⟩ g
    obtain ⟨f, answer, -, -, -, -, lies⟩ := progress.settled r member msg handed
    exact lies.settled
  refine ⟨pass.placed, fun id f pending => ?_, fun r member msg handed => ?_,
    fun id f pending unleased => ?_, ?_⟩
  · obtain ⟨before, -, back⟩ := pass.pending pending
    exact ⟨(progress.pending id f before).1, fun leased => (progress.pending id f before).2 (back leased)⟩
  · rcases List.mem_cons.mp member with rfl | earlier
    · obtain rfl : fetched = some msg := by simpa using handed
      obtain ⟨f, before, nonempty, parsed, lies⟩ := pass.taken msg rfl
      exact ⟨f, answer, (progress.pending _ f before).1, nonempty, parsed, rfl, lies⟩
    · obtain ⟨f, answer', before, nonempty, parsed, called, lies⟩ :=
        progress.settled r earlier msg handed
      refine ⟨f, answer', before, nonempty, parsed, called, ?_⟩
      have notTaken : ∀ other, fetched = some other → other.id ≠ msg.id := by
        intro other taken same
        obtain ⟨g, pending, -⟩ := pass.taken other taken
        exact lies.settled (same ▸ pending)
      exact lies.carry ((pass.others msg.id notTaken).same fun _ => lies.settled)
  · have notTaken : ∀ msg, fetched = some msg → msg.id ≠ id := fun msg taken same =>
      unleased _ (.head _) (leases.mpr ⟨msg, taken, same⟩)
    rcases progress.rest id f pending fun r member => unleased r (.tail _ member) with
      pending | ⟨empty, lies⟩
    · exact (pass.others id notTaken).pending pending
    · exact .inr ⟨empty, lies.carry ((pass.others id notTaken).same fun _ => lies.aside)⟩
  · refine .cons (fun r member id taken earlier => ?_) progress.once
    obtain ⟨msg, handed, rfl⟩ := leases.mp taken
    obtain ⟨f, pending, -⟩ := pass.taken msg handed
    exact known r member _ earlier f pending

theorem trace_progress (placed : Placed s.disk) (trace : Trace reliable s past t)
    (passes : ∀ r ∈ past, ∃ answer : Answer, r.call = .runOnce answer.deliver {}) :
    Progress s.disk past t.disk := by
  induction trace with
  | start => exact .start placed
  | @call past t i call outcome u _ run ih =>
      obtain ⟨answer, rfl⟩ := passes _ (.head _)
      have progress := ih fun r member => passes r (.tail _ member)
      obtain ⟨result, passing, rfl⟩ := Prog.runs_map.mp run
      obtain ⟨fetched, rfl, pass⟩ := runOnce_passes progress.placed (runs_disk passing)
      exact progress.pass pass
  | wait _ tick ih =>
      obtain ⟨later, -, rfl⟩ := tick
      obtain ⟨⟨named, once, plain⟩, pending, settled, rest, once'⟩ := ih passes
      exact ⟨⟨named, once, plain⟩, pending, settled, rest, once'⟩

/-- With every pass after the last lease, one message less is left, or none at all. -/
theorem trace_left (placed : Placed s.disk) (trace : Trace reliable s past t)
    (passes : ∀ r ∈ past, ∃ answer : Answer, r.call = .runOnce answer.deliver {}) {ids : List Bytes} {limit : Nat}
    (all : ∀ id f, Pending s.disk id f → id ∈ ids)
    (expire : ∀ id f, Lies s.disk id (some .inflight) f → leasedUntil f ≤ limit) :
    ∃ left : List Bytes, (∀ id f, Pending t.disk id f → id ∈ left) ∧
      left.length ≤ ids.length - past.countP fun r => decide (limit < r.time) := by
  induction trace with
  | start => exact ⟨ids, all, by simp⟩
  | @call past t i call outcome u before run ih =>
      obtain ⟨answer, rfl⟩ := passes _ (.head _)
      have passes : ∀ r ∈ past, ∃ answer : Answer, r.call = .runOnce answer.deliver {} :=
        fun r member => passes r (.tail _ member)
      obtain ⟨left, covers, short⟩ := ih passes
      have progress := trace_progress placed before passes
      obtain ⟨result, passing, rfl⟩ := Prog.runs_map.mp run
      obtain ⟨fetched, rfl, pass⟩ := runOnce_passes progress.placed (runs_disk passing)
      by_cases late : limit < t.disk.now
      · rw [List.countP_cons_of_pos (by simpa using late)]
        cases fetched with
        | none =>
            refine ⟨[], fun id f pending => ?_, Nat.zero_le _⟩
            obtain ⟨before, -, -⟩ := pass.pending pending
            have ready : Ready t.disk id f := by
              refine before.imp_right fun leased => ⟨leased, ?_⟩
              exact (expire id f ((progress.pending id f before).2 leased)).trans_lt late
            exact absurd pending (pass.idle rfl id f ready).aside
        | some msg =>
            refine ⟨left.erase msg.id, fun id f pending => ?_, ?_⟩
            · obtain ⟨before, other, -⟩ := pass.pending pending
              exact (List.mem_erase_of_ne (Ne.symm (other msg rfl))).mpr (covers id f before)
            · obtain ⟨f, before, -⟩ := pass.taken msg rfl
              rw [List.length_erase_of_mem (covers msg.id f before)]
              omega
      · rw [List.countP_cons_of_neg (by simpa using late)]
        exact ⟨left, fun id f pending => covers id f (pass.pending pending).1, short⟩
  | wait _ tick ih =>
      obtain ⟨later, -, rfl⟩ := tick
      exact ih passes

theorem trace_tidy (tidy : Tidy s.disk) (trace : Trace reliable s past t) : Tidy t.disk := by
  induction trace with
  | start => exact tidy
  | @call past t i call outcome u _ run ih =>
      refine (call_makesNone call).invariant (fun s => Tidy s.disk) ?_ ih run
      exact fun op s r t makes tidy step => tidy.step makes step.1
  | wait _ tick ih =>
      obtain ⟨later, -, rfl⟩ := tick
      obtain ⟨plain, listed⟩ := ih
      exact ⟨plain, listed⟩

end Passes

/-- From any state that calls, deaths and passing time have led to, when only passes are made from
    then on and nothing fails: a pass can always be made, and once there were as many after the
    last lease as there were messages, none waits in `active` or `inflight`. Each was attempted by
    one pass and lies where the result of its delivery puts it; an empty one was put aside. -/
theorem passes_drain {ι : Type} [DecidableEq ι] {pool : QueuePool ι} (reached : Reachable pool)
    {past : List Returned} {t : QueueState ι} (trace : Trace reliable pool.shared past t)
    (passes : ∀ r ∈ past, ∃ answer : Answer, r.call = .runOnce answer.deliver {}) :
    (∀ i (answer : Answer), ∃ outcome u,
      (runOnce answer.deliver {}).Runs (sem reliable i) t outcome u) ∧
    ∀ (ids : List Bytes) (limit : Nat), (∀ id f, Pending pool.shared.disk id f → id ∈ ids) →
      (∀ id f, Lies pool.shared.disk id (some .inflight) f → leasedUntil f ≤ limit) →
      (ids.length ≤ past.countP fun r => decide (limit < r.time)) →
      (∀ id f, ¬ Pending t.disk id f) ∧
      ∀ id f, Pending pool.shared.disk id f →
        (f.data = [] → Lies t.disk id (some .permanentFail) f ∧ ∀ r ∈ past, ¬ r.leases id) ∧
        (f.data ≠ [] → ∃ later time answer earlier,
          past = later ++
            ⟨time, .runOnce (Answer.deliver answer) {}, .fetched (.ok (some (parseMessage id f.data)))⟩ ::
              earlier ∧
          (∀ r ∈ later ++ earlier, ¬ r.leases id) ∧
          Lies t.disk id (destination answer (parseMessage id f.data)) f) := by
  have placed := reachable_placed reached
  have progress := trace_progress placed trace passes
  refine ⟨fun i answer => shuffles_end (trace_tidy (reachable_tidy reached) trace)
    (runOnce_uses answer.deliver {}), fun ids limit all expire enough => ?_⟩
  have drained : ∀ id f, ¬ Pending t.disk id f := by
    obtain ⟨left, covers, short⟩ := trace_left placed trace passes all expire
    intro id f pending
    have some_left := List.length_pos_of_mem (covers id f pending)
    omega
  refine ⟨drained, fun id f pending => ⟨fun empty => ?_, fun nonempty => ?_⟩⟩
  · have unleased : ∀ r ∈ past, ¬ r.leases id := by
      rintro r member ⟨msg, handed, rfl⟩
      obtain ⟨g, _, pending', nonempty, -⟩ := progress.settled r member msg handed
      exact nonempty (pending.unique pending' ▸ empty)
    rcases progress.rest id f pending unleased with open_ | ⟨-, lies⟩
    · exact absurd open_ (drained id f)
    · exact ⟨lies, unleased⟩
  · have leased : ∃ r ∈ past, r.leases id := by
      by_contra none_
      simp only [not_exists, not_and] at none_
      rcases progress.rest id f pending none_ with open_ | ⟨empty, -⟩
      · exact drained id f open_
      · exact nonempty empty
    obtain ⟨⟨time, call, outcome⟩, member, msg, handed, rfl⟩ := leased
    obtain ⟨g, answer, pending', -, parsed, called, lies⟩ := progress.settled _ member msg handed
    obtain rfl := pending.unique pending'
    obtain ⟨later, earlier, rfl⟩ := List.append_of_mem member
    obtain rfl : call = .runOnce answer.deliver {} := called
    obtain rfl : outcome = .fetched (.ok (some msg)) := handed
    refine ⟨later, time, answer, earlier, by rw [← parsed], fun r other leases => ?_, by rwa [← parsed]⟩
    obtain ⟨-, rest, apart⟩ := List.pairwise_append.mp progress.once
    have here : (⟨time, .runOnce answer.deliver {}, .fetched (.ok (some msg))⟩ : Returned).leases msg.id :=
      ⟨msg, rfl, rfl⟩
    rcases List.mem_append.mp other with before | after
    · exact apart r before _ (.head _) msg.id leases here
    · exact (List.pairwise_cons.mp rest).1 r after msg.id here leases

/-- The message of a worker that was killed after its fetch. -/
def abandoned (now : Nat) : QueueState Bool :=
  oneMessage false (msgPath .inflight (idText 7 1)) (idText 7 1)
    (enqueuedContent (ascii "a@x") (ascii "b@y") (ascii "hi")) 0 now

theorem abandoned_lies {id : Bytes} {dir : QueueDir} {f : File} {now : Nat}
    (lies : Lies (abandoned now).disk id (some dir) f) : id = idText 7 1 ∧ f.written = 0 := by
  have found := lies.found
  simp only [abandoned, oneMessage, oneFile, Function.update_apply] at found
  split at found
  · rename_i here
    cases found
    exact ⟨(msgPath_inj.mp here).2, rfl⟩
  · cases found

/-- It is attempted after five minutes. -/
theorem passes_drain_abandoned : ∃ past t, Trace reliable (abandoned 0) past t ∧
    (∀ id f, ¬ Pending t.disk id f) ∧ ∃ r ∈ past, r.leases (idText 7 1) := by
  obtain ⟨⟨past, before⟩, leased⟩ := leased_first
  have reached := (before.fetched leased).reachable
  have waited : Trace reliable (abandoned 0) [] (abandoned (301 * ticksPerSecond)) :=
    .wait .start ⟨_, Nat.zero_le _, rfl⟩
  let accepting : Answer := fun _ _ _ => ⟨true, false, [], 0⟩
  obtain ⟨outcome, t, run⟩ := (passes_drain reached waited (by simp)).1 true accepting
  have called : (Call.runOnce accepting.deliver {}).program.Runs (sem reliable true)
      (abandoned (301 * ticksPerSecond)) (.fetched outcome) t := Prog.runs_map.mpr ⟨_, run, rfl⟩
  have trace := waited.call called
  have late : 300 * ticksPerSecond < (abandoned (301 * ticksPerSecond)).disk.now := by decide
  have known := (passes_drain reached trace (by simp)).2 [idText 7 1] (300 * ticksPerSecond)
    (fun id f pending => by
      rcases pending with lies | lies <;> simp [(abandoned_lies lies).1])
    (fun id f lies => by simp [leasedUntil, (abandoned_lies lies).2, LEASE_TIMEOUT_SEC])
    (List.countP_pos_iff.mpr ⟨_, .head _, decide_eq_true late⟩)
  have waiting : Pending (abandoned 0).disk (idText 7 1)
      ⟨enqueuedContent (ascii "a@x") (ascii "b@y") (ascii "hi"), true, 0⟩ := by
    refine .inr ((reachable_placed reached).once .inflight _ _ ?_)
    simp [oneMessage, oneFile]
  obtain ⟨later, time, answer, earlier, made, -⟩ := (known.2 _ _ waiting).2 (by decide)
  refine ⟨_, t, trace, known.1, ?_⟩
  rw [made]
  exact ⟨_, List.mem_append_right later (.head earlier), parseMessage (idText 7 1) _, rfl, rfl⟩

end EmailServer.Queue
