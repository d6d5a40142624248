import EmailServer.Core.ShutdownRuns

/-! # Every run shuts down in order

Threads call the coordinator in any order and at the same time. Nobody is killed. A log line
that throws is bearable in two places only. In any other it ends the shutdown for good, or
costs a hook its callback.
-/

namespace EmailServer.Core.ShutdownCoordinator

variable {ι : Type} {sort : StdSort ShutdownHook} {throws : LogLine → Prop} {i : ι}

/-- Before any call. -/
def fresh (clock : Int) : ShutdownCoordinator ι := { clock := clock }

theorem fresh_valid [Inhabited ι] (clock : Int) : Valid (fresh clock : ShutdownCoordinator ι) := by
  obtain ⟨trace, whole⟩ := whole_exists (default : ι) []
  refine ⟨.nil, ⟨[], [], [], ?_⟩, fun _ => ⟨rfl, rfl⟩, fun _ _ there => nomatch there⟩
  exact { log := rfl
          earlier := fun _ there => nomatch there
          later := fun _ there => nomatch there
          hooks := .nil
          begins := fun _ => rfl
          goes := ⟨[], trace, ⟨.nil, .nil⟩, whole⟩
          complete := fun complete => nomatch complete
          threads := fun _ there => nomatch there }

theorem guaranteed (bearable : Bearable throws) :
    Pool.Guaranteed (discipline sort throws) Call (ticks (ι := ι)) (fun a s => post a s) where
  entries i p s isCall _ := by
    cases isCall with
    | registerHook hook => exact registerHook_safe hook
    | initiateShutdown => exact initiateShutdown_safe bearable
    | waitForShutdown wakes => exact waitForShutdown_safe (wakes + 1)
  ambients s t tick kept := by
    obtain ⟨later, after, rfl⟩ := tick
    exact ⟨kept.congr rfl rfl rfl rfl rfl rfl, ⟨List.prefix_refl _, id⟩, fun i =>
      ⟨after, fun _ there => there, fun first => ⟨first, rfl, id⟩, fun holds => ⟨holds, rfl, rfl⟩⟩⟩
  lasting a s t grown held := by
    match a, held with
    | .initiated true, complete => exact grown.2 complete
    | .initiated false, _ | .registered, _ | .waited _, _ | .threw, _ => trivial

/-! ## The calls return -/

def lockUse : Op → LockUse
  | .lock => .acquire
  | .unlock => .release
  | _ => .neither

def mutexOf (sort : StdSort ShutdownHook) (throws : LogLine → Prop) :
    Mutex (sem sort throws (ι := ι)) ticks where
  use := lockUse
  holder := mutex
  acquired i op s r t isLock effect := by
    cases op with
    | lock =>
        obtain ⟨free, rfl⟩ := effect
        exact ⟨free, rfl⟩
    | _ => cases isLock
  released i op s r t isUnlock effect := by
    cases op with
    | unlock =>
        obtain rfl := effect
        rfl
    | _ => cases isUnlock
  kept i op s r t other effect := by
    cases op with
    | lock | unlock => cases other
    | exchange =>
        obtain ⟨-, rfl⟩ := effect
        simp only [exchanged]
        split <;> rfl
    | log | hooks | now | isComplete =>
        obtain ⟨-, rfl⟩ := effect
        rfl
    | add | phase | call | timedOut | setComplete =>
        obtain rfl := effect
        rfl
  around s t tick := by
    obtain ⟨later, -, rfl⟩ := tick
    rfl
  proceeds i op s ready := by
    cases op with
    | lock => exact ⟨(), _, ready rfl, rfl⟩
    | exchange | hooks | now | isComplete => exact ⟨_, _, rfl, rfl⟩
    | call => exact ⟨false, _, rfl⟩
    | log => exact ⟨false, _, by simp, rfl⟩
    | unlock | add | phase | timedOut | setComplete => exact ⟨(), _, rfl⟩

/-- What runs between taking and giving back the mutex. -/
def Inside {α : Type} (p : CoordProg α) : Prop :=
  p.Uses fun op => lockUse op = .neither ∧ op ≠ .exchange

theorem Inside.neither {α : Type} {p : CoordProg α} (h : Inside p) :
    p.Uses fun op => lockUse op = .neither := Prog.Uses.weaken h fun _ both => both.1

theorem Inside.plain {α : Type} {p : CoordProg α} (h : Inside p) : p.Uses (· ≠ .exchange) :=
  Prog.Uses.weaken h fun _ both => both.2

theorem Inside.step {α : Type} {op : Op} {next : Res op → CoordProg α}
    (neither : lockUse op = .neither) (other : op ≠ .exchange) (rest : ∀ r, Inside (next r)) :
    Inside (.step op next) := ⟨⟨neither, other⟩, rest⟩

section Operations

variable {α : Type}

theorem Inside.now {next : Int → CoordProg α} (rest : ∀ now, Inside (next now)) :
    Inside (.step .now next) := .step rfl nofun rest

theorem Inside.hooks {next : List ShutdownHook → CoordProg α} (rest : ∀ hooks, Inside (next hooks)) :
    Inside (.step .hooks next) := .step rfl nofun rest

theorem Inside.phase {p : ShutdownPhase} {next : Unit → CoordProg α} (rest : Inside (next ())) :
    Inside (.step (.phase p) next) := .step rfl nofun fun _ => rest

theorem Inside.timedOut {hook : ShutdownHook} {next : Unit → CoordProg α}
    (rest : Inside (next ())) : Inside (.step (.timedOut hook) next) :=
  .step rfl nofun fun _ => rest

theorem Inside.pure (value : α) : Inside (.pure value) := trivial

theorem Inside.call (p : ShutdownPhase) (hook : ShutdownHook) :
    Inside (.step (.call p hook) .pure) := .step rfl nofun .pure

theorem Inside.log (line : LogLine) : Inside (.step (.log line) .pure) := .step rfl nofun .pure

end Operations

theorem Inside.andThen {part next : CoordProg Bool} (first : Inside part) (second : Inside next) :
    Inside (andThen part next) := by
  refine Prog.Uses.bind first fun threw => ?_
  cases threw with
  | true => trivial
  | false => exact second

theorem Inside.logged {next : CoordProg Bool} (line : LogLine) (rest : Inside next) :
    Inside (logged line next) := .andThen (.log line) rest

theorem Inside.handled {body : CoordProg Bool} (p : ShutdownPhase) (hook : ShutdownHook)
    (inside : Inside body) : Inside (handled p hook body) := by
  refine Prog.Uses.bind inside fun threw => ?_
  cases threw with
  | true => exact Inside.log _
  | false => trivial

theorem callLoop_inside (p : ShutdownPhase) (hooks : List ShutdownHook) :
    Inside (callLoop p hooks) := by
  induction hooks with
  | nil => trivial
  | cons hook rest ih =>
      simp only [callLoop]
      split
      · exact .andThen (.handled p hook (.logged _ (.call p hook))) ih
      · exact ih

theorem drainLoop_inside (drainStart : Int) (hooks : List ShutdownHook) :
    Inside (drainLoop drainStart hooks) := by
  induction hooks with
  | nil => trivial
  | cons hook rest ih =>
      simp only [drainLoop]
      split
      · refine .andThen (.handled .drain hook (.logged _ (.now fun now => ?_))) ih
        split
        · exact .call .drain hook
        · exact .timedOut (.log _)
      · exact ih

theorem phases_inside : Inside (andThen stopPhase (andThen drainPhase shutdownPhase)) := by
  refine .andThen ?_ (.andThen ?_ ?_)
  · exact .logged _ (.phase (.hooks fun hooks => callLoop_inside _ hooks))
  · exact .logged _ (.phase (.now fun start => .hooks fun hooks => drainLoop_inside start hooks))
  · exact .logged _ (.phase (.hooks fun hooks => callLoop_inside _ hooks.reverse))

theorem waitForShutdown_balanced (wakes : Nat) :
    (waitForShutdown wakes).Balanced lockUse false := by
  induction wakes with
  | zero => exact ⟨rfl, fun _ _ => ⟨rfl, fun _ => rfl⟩⟩
  | succ wakes ih =>
      refine ⟨rfl, fun _ complete => ⟨rfl, fun _ => ?_⟩⟩
      cases complete with
      | true => exact rfl
      | false => exact ih

theorem waitForShutdown_plain (wakes : Nat) : (waitForShutdown wakes).Uses (· ≠ .exchange) := by
  induction wakes with
  | zero => exact ⟨nofun, fun _ => ⟨nofun, fun _ => ⟨nofun, fun _ => trivial⟩⟩⟩
  | succ wakes ih =>
      refine ⟨nofun, fun _ => ⟨nofun, fun complete => ⟨nofun, fun _ => ?_⟩⟩⟩
      cases complete with
      | true => trivial
      | false => exact ih

theorem shutdownRest_balanced : shutdownRest.Balanced lockUse false := by
  intro threw
  cases threw with
  | true => rfl
  | false =>
      refine ⟨rfl, fun _ => .bind phases_inside.neither fun threw => ?_⟩
      cases threw with
      | true => exact ⟨rfl, fun _ => rfl⟩
      | false => exact fun _ _ => ⟨rfl, fun _ => rfl⟩

theorem shutdownRest_plain : shutdownRest.Uses (· ≠ .exchange) := by
  refine ⟨nofun, fun threw => ?_⟩
  cases threw with
  | true => trivial
  | false =>
      refine ⟨nofun, fun _ => .bind phases_inside.plain fun threw => ?_⟩
      cases threw with
      | true => exact ⟨nofun, fun _ => trivial⟩
      | false => exact ⟨nofun, fun _ => ⟨nofun, fun _ => ⟨nofun, fun _ => trivial⟩⟩⟩

/-! ## The first call completes the shutdown -/

/-- What an operation may answer. -/
def Possible (throws : LogLine → Prop) : (op : Op) → Res op → Prop
  | .log line, threw => threw = true → throws line
  | _, _ => True

theorem sem_possible {op : Op} {s t : ShutdownCoordinator ι} {r : Res op}
    (effect : sem sort throws i op s r t) : Possible throws op r := by
  cases op with
  | log line => exact effect.1
  | lock | unlock | add | exchange | hooks | phase | now | call | timedOut | setComplete
    | isComplete => trivial

/-- No exception leaves the part. -/
abbrev Sound (throws : LogLine → Prop) (part : CoordProg Bool) : Prop :=
  part.Yields (Possible throws) (· = false)

theorem Sound.andThen {part next : CoordProg Bool} (first : Sound throws part)
    (second : Sound throws next) : Sound throws (andThen part next) := by
  refine Prog.Yields.bind first fun threw sound => ?_
  subst sound
  exact second

theorem Sound.log {line : LogLine} (sure : ¬ throws line) : Sound throws (.step (.log line) .pure) :=
  fun _ may => Bool.eq_false_iff.mpr fun threw => sure (may threw)

theorem Sound.logged {line : LogLine} {next : CoordProg Bool} (sure : ¬ throws line)
    (rest : Sound throws next) : Sound throws (logged line next) := .andThen (.log sure) rest

theorem Sound.handled {p : ShutdownPhase} {hook : ShutdownHook} (body : CoordProg Bool)
    (sure : ¬ throws (.error p hook)) : Sound throws (handled p hook body) := by
  refine Prog.Yields.bind (Prog.yields_any body) fun threw _ => ?_
  cases threw with
  | true => exact Sound.log sure
  | false => exact (rfl : false = false)

theorem callLoop_sound (bearable : Bearable throws) (p : ShutdownPhase)
    (hooks : List ShutdownHook) : Sound throws (callLoop p hooks) := by
  induction hooks with
  | nil => exact (rfl : false = false)
  | cons hook rest ih =>
      simp only [callLoop]
      split
      · exact .andThen (.handled _ (bearable.error p hook)) ih
      · exact ih

theorem drainLoop_sound (bearable : Bearable throws) (drainStart : Int)
    (hooks : List ShutdownHook) : Sound throws (drainLoop drainStart hooks) := by
  induction hooks with
  | nil => exact (rfl : false = false)
  | cons hook rest ih =>
      simp only [drainLoop]
      split
      · exact .andThen (.handled _ (bearable.error .drain hook)) ih
      · exact ih

theorem phases_sound (bearable : Bearable throws) :
    Sound throws (andThen stopPhase (andThen drainPhase shutdownPhase)) := by
  refine .andThen ?_ (.andThen ?_ ?_)
  · exact .logged (bearable.phase _) fun _ _ hooks _ => callLoop_sound bearable _ hooks
  · exact .logged (bearable.phase _) fun _ _ start _ hooks _ => drainLoop_sound bearable start hooks
  · exact .logged (bearable.phase _) fun _ _ hooks _ => callLoop_sound bearable _ hooks.reverse

theorem shutdownRest_completes (bearable : Bearable throws) :
    shutdownRest.Performs (Possible throws) (· = .setComplete) := by
  refine .inr fun threw may => ?_
  cases threw with
  | true => exact absurd (may rfl) bearable.initiating
  | false =>
      refine .inr fun _ _ => .bind (phases_sound bearable) fun threw sound => ?_
      subst sound
      exact .inl rfl

/-! ## The calls return -/

theorem calls_balanced (p : CoordProg Returned) (isCall : Call p) : p.Balanced lockUse false := by
  cases isCall with
  | registerHook hook => exact ⟨rfl, fun _ _ => ⟨rfl, fun _ => rfl⟩⟩
  | initiateShutdown =>
      intro already
      cases already with
      | true => exact rfl
      | false => exact shutdownRest_balanced
  | waitForShutdown wakes => exact waitForShutdown_balanced (wakes + 1)

theorem calls_plain (p : CoordProg Returned) (isCall : Call p) :
    p = initiateShutdown ∨ p.Uses (· ≠ .exchange) := by
  cases isCall with
  | registerHook hook => exact .inr ⟨nofun, fun _ => ⟨nofun, fun _ => ⟨nofun, fun _ => trivial⟩⟩⟩
  | initiateShutdown => exact .inl rfl
  | waitForShutdown wakes => exact .inr (waitForShutdown_plain (wakes + 1))

theorem sem_flags {op : Op} {s t : ShutdownCoordinator ι} {r : Res op}
    (effect : sem sort throws i op s r t) :
    (op ≠ .exchange → t.shuttingDown = s.shuttingDown) ∧
      (s.shutdownComplete = true ∨ op = .setComplete → t.shutdownComplete = true) := by
  cases op with
  | lock =>
      obtain ⟨-, rfl⟩ := effect
      exact ⟨fun _ => rfl, fun done => by simpa using done⟩
  | log | hooks | now | isComplete =>
      obtain ⟨-, rfl⟩ := effect
      exact ⟨fun _ => rfl, fun done => by simpa using done⟩
  | exchange =>
      obtain ⟨-, rfl⟩ := effect
      refine ⟨fun other => absurd rfl other, fun done => ?_⟩
      simp only [exchanged]
      split <;> simpa using done
  | unlock | add | phase | call | timedOut =>
      obtain rfl := effect
      exact ⟨fun _ => rfl, fun done => by simpa [note, added] using done⟩
  | setComplete =>
      obtain rfl := effect
      exact ⟨fun _ => rfl, fun _ => rfl⟩

theorem exchange_sets {s t : ShutdownCoordinator ι} {r : Bool}
    (effect : sem sort throws i .exchange s r t) : t.shuttingDown = true := by
  obtain ⟨-, rfl⟩ := effect
  simp only [exchanged]
  split
  · assumption
  · rfl

variable [DecidableEq ι] {pool next : Pool ι Op Res Returned (ShutdownCoordinator ι)}

/-- Once the flag is set the shutdown is complete, or some call will complete it. -/
structure Underway (throws : LogLine → Prop)
    (pool : Pool ι Op Res Returned (ShutdownCoordinator ι)) : Prop where
  plain : ∀ i p, pool.running i = some p → p = initiateShutdown ∨ p.Uses (· ≠ .exchange)
  completes : pool.shared.shuttingDown = true → pool.shared.shutdownComplete = true ∨
    ∃ i p, pool.running i = some p ∧ p.Performs (Possible throws) (· = .setComplete)

namespace Underway

theorem operated {op : Op} {after : Res op → CoordProg Returned} {r : Res op}
    {t : ShutdownCoordinator ι} (bearable : Bearable throws) (h : Underway throws pool)
    (running : pool.running i = some (.step op after))
    (effect : sem sort throws i op pool.shared r t) :
    Underway throws
      { pool with shared := t, running := Function.update pool.running i (some (after r)) } := by
  obtain ⟨flag, done⟩ := sem_flags effect
  constructor
  · intro j q runs
    by_cases same : j = i
    · subst same
      obtain rfl : after r = q := by simpa using runs
      refine .inr ?_
      rcases h.plain j _ running with first | plain
      · cases first
        cases r with
        | true => trivial
        | false => exact shutdownRest_plain
      · exact plain.2 r
    · exact h.plain j q (by simpa [same] using runs)
  · intro set_
    by_cases isExchange : ∃ first : Res .exchange → CoordProg Returned,
        Prog.step op after = .step .exchange first ∧ pool.shared.shuttingDown = false
    · -- this call has just set the flag
      obtain ⟨first, isStep, unset⟩ := isExchange
      obtain ⟨rfl, same⟩ := Prog.step.inj isStep
      obtain rfl := eq_of_heq same
      obtain ⟨answer, -⟩ := effect
      rcases h.plain i _ running with isCall | plain
      · refine .inr ⟨i, after r, by simp, ?_⟩
        cases isCall
        rw [answer, unset]
        exact shutdownRest_completes bearable
      · exact absurd rfl plain.1
    · have before : pool.shared.shuttingDown = true := by
        by_cases other : op = .exchange
        · subst other
          by_contra unset
          exact isExchange ⟨after, rfl, by simpa using unset⟩
        · exact (flag other).symm.trans set_
      rcases h.completes before with complete | ⟨j, q, runs, performs⟩
      · exact .inl (done (.inl complete))
      · by_cases same : j = i
        · subst same
          obtain rfl : Prog.step op after = q := by simpa [running] using runs
          rcases performs with now | later
          · exact .inl (done (.inr now))
          · exact .inr ⟨j, after r, by simp, later r (sem_possible effect)⟩
        · exact .inr ⟨j, q, by simpa [same] using runs, performs⟩

theorem replaced {left : Option (CoordProg Returned)} (h : Underway throws pool)
    (plain : ∀ q, left = some q → q = initiateShutdown ∨ q.Uses (· ≠ .exchange))
    (idle : ∀ q, pool.running i = some q →
      ¬ q.Performs (Possible throws) (· = .setComplete))
    (returned : List Returned) :
    Underway throws ⟨pool.shared, Function.update pool.running i left, returned⟩ := by
  constructor
  · intro j q runs
    by_cases same : j = i
    · exact plain q (by simpa [same] using runs)
    · exact h.plain j q (by simpa [same] using runs)
  · intro set_
    rcases h.completes set_ with complete | ⟨j, q, runs, performs⟩
    · exact .inl complete
    · have other : j ≠ i := by
        rintro rfl
        exact idle q runs performs
      exact .inr ⟨j, q, by simpa [other] using runs, performs⟩

theorem work (bearable : Bearable throws) (h : Underway throws pool)
    (work : Pool.Works (sem sort throws) pool next) : Underway throws next := by
  cases work with
  | operate running effect => exact h.operated bearable running effect
  | @finish i a running =>
      refine h.replaced (fun q runs => by cases runs) ?_ _
      intro q runs performs
      obtain rfl : Prog.pure a = q := by simpa [running] using runs
      exact performs

omit [DecidableEq ι] in
theorem around {s : ShutdownCoordinator ι} (h : Underway throws pool) (tick : ticks pool.shared s) :
    Underway throws { pool with shared := s } := by
  obtain ⟨later, -, rfl⟩ := tick
  exact ⟨h.plain, h.completes⟩

theorem proceeds (bearable : Bearable throws) (h : Underway throws pool)
    (move : Pool.Proceeds (sem sort throws) Call ticks pool next) : Underway throws next := by
  cases move with
  | @call i p idle isCall =>
      refine h.replaced ?_ (fun q runs => by simp [idle] at runs) _
      intro q runs
      cases runs
      exact calls_plain p isCall
  | work work => exact h.work bearable work
  | around tick => exact h.around tick

omit [DecidableEq ι] in
theorem start (clock : Int) :
    Underway throws (Pool.start (fresh clock : ShutdownCoordinator ι)) :=
  ⟨fun _ _ runs => (nomatch runs), fun set_ => nomatch set_⟩

omit [DecidableEq ι] in
theorem quiescent (h : Underway throws pool) (quiet : pool.Quiescent)
    (set_ : pool.shared.shuttingDown = true) : pool.shared.shutdownComplete = true := by
  rcases h.completes set_ with complete | ⟨i, p, runs, -⟩
  · exact complete
  · simp [quiet i] at runs

end Underway

/-- A call of `initiateShutdown` stands at its beginning, or the flag is set. -/
def Called (i : ι) (pool : Pool ι Op Res Returned (ShutdownCoordinator ι)) : Prop :=
  pool.running i = some initiateShutdown ∨ pool.shared.shuttingDown = true

theorem Called.proceeds (h : Called i pool)
    (move : Pool.Proceeds (sem sort throws) Call ticks pool next) : Called i next := by
  cases move with
  | @call j p idle isCall =>
      refine h.imp_left fun waits => ?_
      have other : i ≠ j := by
        rintro rfl
        rw [idle] at waits
        cases waits
      simpa [other] using waits
  | around tick =>
      obtain ⟨later, -, rfl⟩ := tick
      exact h
  | work work =>
      cases work with
      | @finish j a running =>
          refine h.imp_left fun waits => ?_
          have other : i ≠ j := by
            rintro rfl
            rw [running] at waits
            cases waits
          simpa [other] using waits
      | @operate j op after r t running effect =>
          by_cases isExchange : op = .exchange
          · subst isExchange
            exact .inr (exchange_sets effect)
          rcases h with waits | set_
          · have other : i ≠ j := by
              rintro rfl
              rw [running] at waits
              cases waits
              exact isExchange rfl
            exact .inl (by simpa [other] using waits)
          · exact .inr (((sem_flags effect).1 isExchange).trans set_)

/-! ## Every run -/

/-- The log of a state whose shutdown is complete: registrations, an orderly shutdown of what
    was registered, all by one thread, and later registrations. -/
def InOrder (s : ShutdownCoordinator ι) : Prop :=
  ∃ before body after, s.log = before ++ body ++ after ∧ Quiet before ∧ Quiet after ∧
    Orderly (registered before) body ∧ ∀ e ∈ body, s.first = some e.thread

omit [DecidableEq ι] in
theorem Valid.inOrder {s : ShutdownCoordinator ι} (valid : Valid s)
    (complete : s.shutdownComplete = true) : InOrder s := by
  obtain ⟨before, body, after, shape⟩ := valid.shape
  obtain ⟨order, ordered, whole⟩ := shape.complete complete
  exact ⟨before, body, after, shape.log, shape.earlier, shape.later,
    whole.orderly ordered.perm ordered.sorted, shape.threads⟩

/-- What holds in every run. -/
structure Kept (sort : StdSort ShutdownHook) (throws : LogLine → Prop)
    (pool : Pool ι Op Res Returned (ShutdownCoordinator ι)) : Prop where
  consistent : Pool.Consistent (discipline sort throws) post pool
  underway : Underway throws pool
  guarded : Pool.Guarded (mutexOf sort throws) pool

namespace Kept

theorem start [Inhabited ι] (clock : Int) :
    Kept sort throws (Pool.start (fresh clock : ShutdownCoordinator ι)) :=
  ⟨Pool.start_consistent (fresh_valid clock), .start clock, .start rfl⟩

theorem proceeds (bearable : Bearable throws) (h : Kept sort throws pool)
    (move : Pool.Proceeds (sem sort throws) Call ticks pool next) : Kept sort throws next :=
  ⟨Pool.step_consistent (guaranteed bearable) move.step h.consistent,
    h.underway.proceeds bearable move, h.guarded.proceeds calls_balanced move⟩

theorem run [Inhabited ι] {clock : Int} (bearable : Bearable throws)
    (run : Relation.ReflTransGen (Pool.Proceeds (sem sort throws) Call ticks)
      (Pool.start (fresh clock : ShutdownCoordinator ι)) pool) : Kept sort throws pool := by
  induction run with
  | refl => exact .start clock
  | tail _ move ih => exact ih.proceeds bearable move

/-- What every step keeps is kept by the work on the calls in progress. -/
theorem eventually (inv : Pool ι Op Res Returned (ShutdownCoordinator ι) → Prop)
    (h : Kept sort throws pool) (start : inv pool)
    (kept : ∀ p q, inv p → Pool.Proceeds (sem sort throws) Call ticks p q → inv q) :
    Inevitably (Pool.Advances (sem sort throws) ticks) (Pool.Advances (sem sort throws) ticks)
      (fun later => later.Quiescent ∧ inv later) pool := by
  refine h.guarded.quiet.keeping (fun p q holds move => ?_) start
  obtain ⟨s, rfl | tick, work⟩ := move
  · exact kept _ _ holds (.work work)
  · exact kept _ _ (kept _ _ holds (.around tick)) (.work work)

end Kept

/-- Where no log line throws but the two that may: at any moment of any run the log is made of
    the registrations before the first shutdown, the orderly log of that shutdown as far as it
    has come, all written by one thread, and later registrations. When the first call has
    returned its log is whole and the shutdown complete. A thread whose call found the shutdown
    begun writes nothing but registrations from then on. And whoever calls `initiateShutdown`:
    under every schedule all the calls return, and then the flag is set and the shutdown is
    complete and in order. -/
theorem orderly_shutdown [Inhabited ι] (sort : StdSort ShutdownHook) (clock : Int)
    (bearable : Bearable throws)
    (run : Relation.ReflTransGen (Pool.Proceeds (sem sort throws) Call ticks)
      (Pool.start (fresh clock : ShutdownCoordinator ι)) pool) :
    (∃ before body after, pool.shared.log = before ++ body ++ after ∧ Quiet before ∧ Quiet after ∧
      (∃ full, Orderly (registered before) full ∧ body <+: full) ∧
      ∀ e ∈ body, pool.shared.first = some e.thread) ∧
    (pool.shared.shutdownComplete = true → InOrder pool.shared) ∧
    (.initiated true ∈ pool.returned → pool.shared.shutdownComplete = true) ∧
    (∀ i n, (i, n) ∈ pool.shared.repeats →
      ∀ e ∈ pool.shared.log.drop n, e.thread = i → e.event.block = 0) ∧
    ∀ i, pool.running i = none →
      Inevitably (Pool.Advances (sem sort throws) ticks) (Pool.Advances (sem sort throws) ticks)
        (fun later => later.Quiescent ∧ later.shared.shuttingDown = true ∧
          later.shared.shutdownComplete = true ∧ InOrder later.shared)
        { pool with running := Function.update pool.running i (some initiateShutdown) } := by
  have kept := Kept.run bearable run
  have valid : Valid pool.shared := kept.consistent.valid
  refine ⟨?_, valid.inOrder, kept.consistent.returned _, fun i n there => (valid.repeats i n there).2,
    fun i idle => ?_⟩
  · obtain ⟨before, body, after, shape⟩ := valid.shape
    obtain ⟨order, more, ordered, whole⟩ := shape.goes
    exact ⟨before, body, after, shape.log, shape.earlier, shape.later,
      ⟨_, whole.orderly ordered.perm ordered.sorted, List.prefix_append _ _⟩, shape.threads⟩
  · have called : Pool.Proceeds (sem sort throws) Call ticks pool
        { pool with running := Function.update pool.running i (some initiateShutdown) } :=
      .call idle .initiateShutdown
    have begun := kept.proceeds bearable called
    have ends := begun.eventually (fun p => Kept sort throws p ∧ Called i p)
      ⟨begun, .inl (by simp)⟩ fun p q ⟨kept, called⟩ move =>
        ⟨kept.proceeds bearable move, called.proceeds move⟩
    refine ends.mono ?_
    rintro later ⟨quiet, kept, waits | set_⟩
    · rw [quiet i] at waits
      cases waits
    · have complete := kept.underway.quiescent quiet set_
      have valid : Valid later.shared := kept.consistent.valid
      exact ⟨quiet, set_, complete, valid.inOrder complete⟩

/-- A sort by insertion. -/
def insertionSort : StdSort ShutdownHook where
  sortBy key l := l.insertionSort fun a b => key a ≤ key b
  perm key l := List.perm_insertionSort (fun a b => key a ≤ key b) l
  sorted key l :=
    have : Std.Total fun a b : ShutdownHook => key a ≤ key b := ⟨fun _ _ => le_total _ _⟩
    have : IsTrans ShutdownHook fun a b => key a ≤ key b := ⟨fun _ _ _ => le_trans⟩
    List.pairwise_insertionSort (fun a b => key a ≤ key b) l

/-- A server with all three callbacks. -/
def listener : ShutdownHook where
  name := [115, 109, 116, 112]
  stopAccepting := true
  drain := true
  shutdown := true

/-- Its `stopAccepting` throws, and another thread calls again. -/
theorem orderly_shutdown_listener :
    ∃ pool : Pool Bool Op Res Returned (ShutdownCoordinator Bool),
      .initiated true ∈ pool.returned ∧ .initiated false ∈ pool.returned ∧
      callbacks .shutdown pool.shared.log = [listener] ∧
      pool.shared.shutdownComplete = true ∧ InOrder pool.shared := by
  have bearable : Bearable (· = .complete) := fun _ may => .inl may
  have registers : Relation.ReflTransGen
      (Pool.Proceeds (sem insertionSort (· = .complete)) Call ticks)
      (Pool.start (fresh 0 : ShutdownCoordinator Bool)) _ :=
    Pool.call_proceeds (i := false) _ rfl (.registerHook listener)
      ⟨(), _, ⟨rfl, rfl⟩, (), _, rfl, (), _, rfl, rfl, rfl⟩
  have shuts : Relation.ReflTransGen
      (Pool.Proceeds (sem insertionSort (· = .complete)) Call ticks)
      (Pool.start (fresh 0 : ShutdownCoordinator Bool)) _ :=
    registers.trans (Pool.call_proceeds (i := true) _ rfl .initiateShutdown
      ⟨false, _, ⟨rfl, rfl⟩, false, _, ⟨nofun, rfl⟩, (), _, ⟨rfl, rfl⟩,
        false, _, ⟨nofun, rfl⟩, (), _, rfl, [listener], _, ⟨rfl, rfl⟩,
        false, _, ⟨nofun, rfl⟩, true, _, rfl, false, _, ⟨nofun, rfl⟩,
        false, _, ⟨nofun, rfl⟩, (), _, rfl, 0, _, ⟨rfl, rfl⟩, [listener], _, ⟨rfl, rfl⟩,
        false, _, ⟨nofun, rfl⟩, 0, _, ⟨rfl, rfl⟩, false, _, rfl,
        false, _, ⟨nofun, rfl⟩, (), _, rfl, [listener], _, ⟨rfl, rfl⟩,
        false, _, ⟨nofun, rfl⟩, false, _, rfl,
        (), _, rfl, false, _, ⟨nofun, rfl⟩, (), _, rfl, rfl, rfl⟩)
  have again : Relation.ReflTransGen
      (Pool.Proceeds (sem insertionSort (· = .complete)) Call ticks)
      (Pool.start (fresh 0 : ShutdownCoordinator Bool)) _ :=
    shuts.trans (Pool.call_proceeds (i := false) _ rfl .initiateShutdown
      ⟨true, _, ⟨rfl, rfl⟩, rfl, rfl⟩)
  obtain ⟨-, inOrder, completes, -, -⟩ := orderly_shutdown insertionSort 0 bearable again
  have complete := completes (.tail _ (.head _))
  exact ⟨_, .tail _ (.head _), .head _, rfl, complete, inOrder complete⟩

/-- The first line that is logged throws: the shutdown is lost, and the next call finds the flag
    set. -/
theorem shutdown_lost :
    ∃ pool : Pool Bool Op Res Returned (ShutdownCoordinator Bool),
      Relation.ReflTransGen (Pool.Proceeds (sem insertionSort (· = .initiating)) Call ticks)
        (Pool.start (fresh 0)) pool ∧
      pool.returned = [.initiated false, .threw, .registered] ∧ pool.shared.hooks = [listener] ∧
      pool.shared.shuttingDown = true ∧ pool.shared.shutdownComplete = false ∧
      (∀ p, callbacks p pool.shared.log = []) ∧ ¬ InOrder pool.shared := by
  have registers : Relation.ReflTransGen
      (Pool.Proceeds (sem insertionSort (· = .initiating)) Call ticks)
      (Pool.start (fresh 0 : ShutdownCoordinator Bool)) _ :=
    Pool.call_proceeds (i := false) _ rfl (.registerHook listener)
      ⟨(), _, ⟨rfl, rfl⟩, (), _, rfl, (), _, rfl, rfl, rfl⟩
  have throws : Relation.ReflTransGen
      (Pool.Proceeds (sem insertionSort (· = .initiating)) Call ticks)
      (Pool.start (fresh 0 : ShutdownCoordinator Bool)) _ :=
    registers.trans (Pool.call_proceeds (i := true) _ rfl .initiateShutdown
      ⟨false, _, ⟨rfl, rfl⟩, true, _, ⟨fun _ => rfl, rfl⟩, rfl, rfl⟩)
  have again : Relation.ReflTransGen
      (Pool.Proceeds (sem insertionSort (· = .initiating)) Call ticks)
      (Pool.start (fresh 0 : ShutdownCoordinator Bool)) _ :=
    throws.trans (Pool.call_proceeds (i := false) _ rfl .initiateShutdown
      ⟨true, _, ⟨rfl, rfl⟩, rfl, rfl⟩)
  refine ⟨_, again, rfl, rfl, rfl, rfl, fun _ => rfl, ?_⟩
  rintro ⟨before, body, after, log, -, -, ordered, -⟩
  have none_ : phases (before ++ body ++ after) = [] := by
    rw [← log]
    rfl
  rw [phases_append, phases_append, ordered.phases] at none_
  simp at none_

end EmailServer.Core.ShutdownCoordinator
