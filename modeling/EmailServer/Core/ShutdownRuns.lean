import EmailServer.Core.Shutdown

/-! # Threads at the coordinator

Whoever holds the mutex owns the hooks and the log; whoever set `shuttingDown` is the
only one to call back. In every interleaving the log is thus made of registrations, the
log of one shutdown as far as it has come, and registrations again.
-/

namespace EmailServer.Core.ShutdownCoordinator

variable {ι : Type} {s t : ShutdownCoordinator ι} {i : ι}

/-- Nothing but registrations. -/
def Quiet (trace : List (Entry ι)) : Prop := ∀ e ∈ trace, e.event.block = 0

/-- An order in which the hooks may be shut down. -/
structure OrderOf (hooks order : List ShutdownHook) : Prop where
  perm : order.Perm hooks
  sorted : order.Pairwise (·.priority ≤ ·.priority)

/-- The log is `before`, then what there is of the shutdown, then `after`. -/
structure Shape (s : ShutdownCoordinator ι) (before body after : List (Entry ι)) : Prop where
  log : s.log = before ++ body ++ after
  earlier : Quiet before
  later : Quiet after
  hooks : s.hooks.Perm (registered (before ++ after))
  begins : body = [] → after = []
  goes : ∃ order more, OrderOf (registered before) order ∧ Whole order (body ++ more)
  complete : s.shutdownComplete = true → ∃ order, OrderOf (registered before) order ∧
    Whole order body
  threads : ∀ e ∈ body, s.first = some e.thread

structure Valid (s : ShutdownCoordinator ι) : Prop where
  sorted : s.hooks.Pairwise (·.priority ≤ ·.priority)
  shape : ∃ before body after, Shape s before body after
  unset : s.shuttingDown = false → s.first = none ∧ s.repeats = []
  repeats : ∀ i n, (i, n) ∈ s.repeats →
    n ≤ s.log.length ∧ ∀ e ∈ s.log.drop n, e.thread = i → e.event.block = 0

theorem Valid.congr (h : Valid s) (hooks : t.hooks = s.hooks) (log : t.log = s.log)
    (complete : t.shutdownComplete = s.shutdownComplete) (first : t.first = s.first)
    (flag : t.shuttingDown = s.shuttingDown) (repeats : t.repeats = s.repeats) : Valid t := by
  obtain ⟨before, body, after, shape⟩ := h.shape
  refine ⟨hooks ▸ h.sorted, ⟨before, body, after, ?_⟩, ?_, ?_⟩
  · exact { log := log.trans shape.log, earlier := shape.earlier, later := shape.later
            hooks := hooks ▸ shape.hooks, begins := shape.begins, goes := shape.goes
            complete := complete ▸ shape.complete, threads := first ▸ shape.threads }
  · rw [flag, first, repeats]
    exact h.unset
  · rw [log, repeats]
    exact h.repeats

/-- What thread `i` may assume of the steps of the others. -/
structure Rely (i : ι) (s t : ShutdownCoordinator ι) : Prop where
  clock : s.clock ≤ t.clock
  repeats : ∀ n, (i, n) ∈ t.repeats → (i, n) ∈ s.repeats
  first : s.first = some i → t.first = some i ∧ t.shutdownComplete = s.shutdownComplete ∧
    (Quiet s.log → Quiet t.log)
  holds : s.mutex = some i → t.mutex = some i ∧ t.hooks = s.hooks ∧ t.log = s.log

theorem Rely.refl (i : ι) (s : ShutdownCoordinator ι) : Rely i s s :=
  ⟨le_refl _, fun _ there => there, fun first => ⟨first, rfl, id⟩, fun holds => ⟨holds, rfl, rfl⟩⟩

theorem Rely.trans {u : ShutdownCoordinator ι} (first : Rely i s t) (second : Rely i t u) :
    Rely i s u := by
  refine ⟨first.clock.trans second.clock, fun n there => first.repeats n (second.repeats n there),
    ?_, ?_⟩
  · intro isFirst
    obtain ⟨isFirst, same, quiet⟩ := first.first isFirst
    obtain ⟨isFirst, same', quiet'⟩ := second.first isFirst
    exact ⟨isFirst, same'.trans same, fun h => quiet' (quiet h)⟩
  · intro holds
    obtain ⟨holds, hooks, log⟩ := first.holds holds
    obtain ⟨holds, hooks', log'⟩ := second.holds holds
    exact ⟨holds, hooks'.trans hooks, log'.trans log⟩

/-- The log grows, and what is complete stays so. -/
def Grows (s t : ShutdownCoordinator ι) : Prop :=
  s.log <+: t.log ∧ (s.shutdownComplete = true → t.shutdownComplete = true)

variable (sort : StdSort ShutdownHook) (throws : LogLine → Prop)

def discipline : Discipline ι Op Res (ShutdownCoordinator ι) where
  sem := sem sort throws
  valid := Valid
  rely := Rely
  grows := Grows
  rely_refl := Rely.refl
  rely_trans _ _ _ _ := Rely.trans

variable {sort} {throws}

theorem grows_note {event : Event} : Grows s (s.note i event) :=
  ⟨List.prefix_append _ _, id⟩

theorem accepts_read (kept : Valid s) : (discipline sort throws).Accepts i s s :=
  ⟨kept, ⟨List.prefix_refl _, id⟩, fun j _ => Rely.refl j s⟩

theorem accepts_mutex (kept : Valid s) {holder : Option ι} (ours : ∀ j, j ≠ i → s.mutex ≠ some j) :
    (discipline sort throws).Accepts i s { s with mutex := holder } := by
  refine ⟨kept.congr rfl rfl rfl rfl rfl rfl, ⟨List.prefix_refl _, id⟩, fun j other => ?_⟩
  exact ⟨le_refl _, fun _ there => there, fun first => ⟨first, rfl, id⟩,
    fun holds => absurd holds (ours j other)⟩

theorem ours_of_free (free : s.mutex = none) (j : ι) (_ : j ≠ i) : s.mutex ≠ some j := by
  simp [free]

theorem ours_of_holds (holds : s.mutex = some i) (j : ι) (other : j ≠ i) : s.mutex ≠ some j := by
  simpa [holds] using other.symm

theorem Valid.repeats_note (h : Valid s) {event : Event}
    (fair : event.block = 0 ∨ ∀ n, (i, n) ∉ s.repeats) (j : ι) (n : Nat)
    (there : (j, n) ∈ s.repeats) :
    n ≤ (s.note i event).log.length ∧
      ∀ e ∈ (s.note i event).log.drop n, e.thread = j → e.event.block = 0 := by
  obtain ⟨within, old⟩ := h.repeats j n there
  have split : (s.note i event).log.drop n = s.log.drop n ++ [⟨i, s.clock, event⟩] :=
    List.drop_append_of_le_length within
  refine ⟨within.trans (by simp [note]), fun e member thread => ?_⟩
  rw [split] at member
  rcases List.mem_append.mp member with inside | last
  · exact old e inside thread
  · obtain rfl := List.mem_singleton.mp last
    rcases fair with quiet | single
    · exact quiet
    · obtain rfl : i = j := thread
      exact absurd there (single n)

theorem quiet_concat {trace : List (Entry ι)} {e : Entry ι} (quiet : Quiet trace)
    (last : e.event.block = 0) : Quiet (trace ++ [e]) :=
  List.forall_mem_append.mpr ⟨quiet, List.forall_mem_singleton.mpr last⟩

theorem loop_exists (i : ι) (p : ShutdownPhase) (late : Int → Prop) (hooks : List ShutdownHook) :
    ∃ trace : List (Entry ι), Loop p late hooks trace := by
  induction hooks with
  | nil => exact ⟨[], .nil⟩
  | cons hook rest ih =>
      obtain ⟨trace, loop⟩ := ih
      cases set_ : hook.has p with
      | true => exact ⟨_, .call i 0 false set_ loop⟩
      | false => exact ⟨_, .absent set_ loop⟩

theorem whole_exists (i : ι) (order : List ShutdownHook) :
    ∃ trace : List (Entry ι), Whole order trace := by
  obtain ⟨stops, stopLoop⟩ := loop_exists i .stopAccepting never order
  obtain ⟨drains, drainLoop⟩ := loop_exists i .drain (Late 0) order
  obtain ⟨closes, closeLoop⟩ := loop_exists i .shutdown never order.reverse
  exact ⟨_, .mk i 0 0 0 stopLoop drainLoop closeLoop⟩

theorem Whole.not_quiet {order : List ShutdownHook} {body more : List (Entry ι)}
    (whole : Whole order (body ++ more)) (quiet : Quiet body) : body = [] := by
  cases body with
  | nil => rfl
  | cons e rest =>
      have none_ := quiet e List.mem_cons_self
      generalize all : e :: rest ++ more = trace at whole
      cases whole with
      | mk i t₁ t₂ t₃ stops drains closes =>
          injection all with head
          simp [head, Event.block, ShutdownPhase.number] at none_

theorem Whole.nonempty {order : List ShutdownHook} : ¬ Whole order ([] : List (Entry ι)) := by
  intro whole
  generalize all : ([] : List (Entry ι)) = trace at whole
  cases whole with
  | mk => cases all

theorem Valid.added (h : Valid s) (hook : ShutdownHook) :
    Valid ((s.added sort hook).note i (.registered hook)) := by
  obtain ⟨before, body, after, shape⟩ := h.shape
  have sorted := sort.sorted (·.priority) (s.hooks ++ [hook])
  have perm := sort.perm (·.priority) (s.hooks ++ [hook])
  have kept : (sort.sortBy (·.priority) (s.hooks ++ [hook])).Perm
      (registered (before ++ after) ++ [hook]) := perm.trans (shape.hooks.append_right _)
  let e : Entry ι := ⟨i, s.clock, .registered hook⟩
  have same : registered [e] = [hook] := rfl
  refine ⟨sorted, ?_, h.unset, h.repeats_note (.inl rfl)⟩
  by_cases begun : body = []
  · -- it comes before the shutdown
    obtain rfl := begun
    obtain rfl := shape.begins rfl
    obtain ⟨trace, whole⟩ := whole_exists i (sort.sortBy (·.priority) (s.hooks ++ [hook]))
    have all : (sort.sortBy (·.priority) (s.hooks ++ [hook])).Perm (registered (before ++ [e])) := by
      simpa [registered_append, same] using kept
    refine ⟨before ++ [e], [], [], ?_⟩
    exact { log := by simp [note, ShutdownCoordinator.added, shape.log, e]
            earlier := quiet_concat shape.earlier rfl
            later := shape.later
            hooks := by simpa [note, ShutdownCoordinator.added] using all
            begins := fun _ => rfl
            goes := ⟨_, trace, ⟨all, sorted⟩, whole⟩
            complete := fun complete =>
              absurd (shape.complete complete).choose_spec.2 Whole.nonempty
            threads := fun _ there => nomatch there }
  · refine ⟨before, body, after ++ [e], ?_⟩
    exact { log := by simp [note, ShutdownCoordinator.added, shape.log, e]
            earlier := shape.earlier
            later := quiet_concat shape.later rfl
            hooks := by
              simpa [note, ShutdownCoordinator.added, registered_append, same] using kept
            begins := fun none_ => absurd none_ begun
            goes := shape.goes
            complete := shape.complete
            threads := shape.threads }

theorem accepts_added (kept : Valid s) (holds : s.mutex = some i) (hook : ShutdownHook) :
    (discipline sort throws).Accepts i s ((s.added sort hook).note i (.registered hook)) := by
  refine ⟨kept.added hook, grows_note, fun j other => ?_⟩
  exact ⟨le_refl _, fun _ there => there,
    fun first => ⟨first, rfl, fun quiet => quiet_concat quiet rfl⟩,
    fun taken => absurd taken (ours_of_holds holds j other)⟩

/-- A call that has returned. The first `initiateShutdown` leaves the shutdown complete. -/
def post : Returned → ShutdownCoordinator ι → Prop
  | .initiated true, s => s.shutdownComplete = true
  | _, _ => True

section Operations

variable {α : Type} {ends : α → ShutdownCoordinator ι → Prop}

theorem lock_safe {next : Unit → CoordProg α}
    (rest : ∀ t, Valid t → Rely i s t → (discipline sort throws).Safe i ends (next ())
      { t with mutex := some i }) :
    (discipline sort throws).Safe i ends (.step .lock next) s := by
  rintro t kept others r u ⟨free, rfl⟩
  exact ⟨accepts_mutex kept (ours_of_free free), rest t kept others⟩

theorem unlock_safe {next : Unit → CoordProg α} (holds : s.mutex = some i)
    (rest : ∀ t, Valid t → Rely i s t → (discipline sort throws).Safe i ends (next ())
      { t with mutex := none }) :
    (discipline sort throws).Safe i ends (.step .unlock next) s := by
  rintro t kept others r u rfl
  exact ⟨accepts_mutex kept (ours_of_holds (others.holds holds).1), rest t kept others⟩

theorem isComplete_safe {next : Bool → CoordProg α}
    (rest : ∀ t, Valid t → Rely i s t →
      (discipline sort throws).Safe i ends (next t.shutdownComplete) t) :
    (discipline sort throws).Safe i ends (.step .isComplete next) s := by
  rintro t kept others r u ⟨rfl, rfl⟩
  exact ⟨accepts_read kept, rest u kept others⟩

theorem hooks_safe {next : List ShutdownHook → CoordProg α}
    (rest : ∀ t, Valid t → Rely i s t → (discipline sort throws).Safe i ends (next t.hooks) t) :
    (discipline sort throws).Safe i ends (.step .hooks next) s := by
  rintro t kept others r u ⟨rfl, rfl⟩
  exact ⟨accepts_read kept, rest u kept others⟩

theorem log_safe {line : LogLine} {next : Bool → CoordProg α} (sure : ¬ throws line)
    (rest : ∀ t, Valid t → Rely i s t → (discipline sort throws).Safe i ends (next false) t) :
    (discipline sort throws).Safe i ends (.step (.log line) next) s := by
  rintro t kept others threw u ⟨may, rfl⟩
  cases threw with
  | false => exact ⟨accepts_read kept, rest u kept others⟩
  | true => exact absurd (may rfl) sure

theorem now_safe {next : Int → CoordProg α}
    (rest : ∀ t, Valid t → Rely i s t → (discipline sort throws).Safe i ends (next t.clock) t) :
    (discipline sort throws).Safe i ends (.step .now next) s := by
  rintro t kept others r u ⟨rfl, rfl⟩
  exact ⟨accepts_read kept, rest u kept others⟩

end Operations

theorem registerHook_safe (hook : ShutdownHook) :
    (discipline sort throws).Safe i post (registerHook hook) s := by
  refine lock_safe fun t _ _ => ?_
  rintro u kept others _ v rfl
  have holds := (others.holds rfl).1
  refine ⟨accepts_added kept holds hook, ?_⟩
  exact unlock_safe holds fun _ _ _ _ _ _ => trivial

theorem waitForShutdown_safe (wakes : Nat) :
    (discipline sort throws).Safe i post (waitForShutdown wakes) s := by
  induction wakes generalizing s with
  | zero =>
      refine lock_safe fun t _ _ => isComplete_safe fun u _ others => ?_
      exact unlock_safe (others.holds rfl).1 fun _ _ _ _ _ _ => trivial
  | succ wakes ih =>
      refine lock_safe fun t _ _ => isComplete_safe fun u _ others => ?_
      refine unlock_safe (others.holds rfl).1 fun v _ _ => ?_
      cases u.shutdownComplete with
      | true => exact fun _ _ _ => trivial
      | false => exact ih

/-! ## The first shutdown -/

/-- Thread `i` is about to shut down. -/
structure Waiting (i : ι) (s : ShutdownCoordinator ι) : Prop where
  first : s.first = some i
  single : ∀ n, (i, n) ∉ s.repeats
  quiet : Quiet s.log
  unfinished : s.shutdownComplete = false

theorem Waiting.rely (h : Waiting i s) (others : Rely i s t) : Waiting i t := by
  obtain ⟨first, same, quiet⟩ := others.first h.first
  exact ⟨first, fun n there => h.single n (others.repeats n there), quiet h.quiet,
    same.trans h.unfinished⟩

/-- Thread `i` holds the mutex and has written `body`, shutting down `order`. -/
structure Midway (i : ι) (order : List ShutdownHook) (before body : List (Entry ι))
    (s : ShutdownCoordinator ι) : Prop where
  holds : s.mutex = some i
  first : s.first = some i
  single : ∀ n, (i, n) ∉ s.repeats
  unfinished : s.shutdownComplete = false
  log : s.log = before ++ body
  earlier : Quiet before
  hooks : s.hooks = order
  ordered : OrderOf (registered before) order
  threads : ∀ e ∈ body, e.thread = i

theorem Midway.rely {order : List ShutdownHook} {before body : List (Entry ι)}
    (h : Midway i order before body s) (others : Rely i s t) : Midway i order before body t := by
  obtain ⟨first, same, -⟩ := others.first h.first
  obtain ⟨holds, hooks, log⟩ := others.holds h.holds
  exact { h with
    holds := holds, first := first, single := fun n there => h.single n (others.repeats n there)
    unfinished := same.trans h.unfinished, log := log.trans h.log, hooks := hooks.trans h.hooks }

theorem Waiting.locked (h : Waiting i s) (kept : Valid s) :
    Midway i s.hooks s.log [] { s with mutex := some i } := by
  obtain ⟨before, body, after, shape⟩ := kept.shape
  obtain ⟨order, more, -, whole⟩ := shape.goes
  have quiet : Quiet body := fun e there => h.quiet e (by simp [shape.log, there])
  obtain rfl := whole.not_quiet quiet
  obtain rfl := shape.begins rfl
  have log : s.log = before := by simpa using shape.log
  have perm : s.hooks.Perm (registered s.log) := by simpa [log] using shape.hooks
  exact { holds := rfl, first := h.first, single := h.single, unfinished := h.unfinished
          log := (List.append_nil _).symm, earlier := h.quiet, hooks := rfl
          ordered := ⟨perm, kept.sorted⟩, threads := fun _ there => nomatch there }

section Body

variable {order : List ShutdownHook} {before body : List (Entry ι)}

theorem Midway.note (h : Midway i order before body s) (kept : Valid s) {event : Event}
    {more : List (Entry ι)} (whole : Whole order (body ++ ⟨i, s.clock, event⟩ :: more)) :
    (discipline sort throws).Accepts i s (s.note i event) ∧
      Midway i order before (body ++ [⟨i, s.clock, event⟩]) (s.note i event) := by
  have log : (s.note i event).log = before ++ (body ++ [⟨i, s.clock, event⟩]) := by
    simp [ShutdownCoordinator.note, h.log]
  have threads : ∀ e ∈ body ++ [⟨i, s.clock, event⟩], e.thread = i :=
    List.forall_mem_append.mpr ⟨h.threads, List.forall_mem_singleton.mpr rfl⟩
  have valid : Valid (s.note i event) := by
    refine ⟨kept.sorted, ⟨before, body ++ [⟨i, s.clock, event⟩], [], ?_⟩, kept.unset,
      kept.repeats_note (.inr h.single)⟩
    exact { log := by simpa using log
            earlier := h.earlier
            later := fun _ there => nomatch there
            hooks := by simpa [ShutdownCoordinator.note, h.hooks] using h.ordered.perm
            begins := fun none_ => absurd none_ (by simp)
            goes := ⟨order, more, h.ordered, by simpa using whole⟩
            complete := fun complete => absurd (h.unfinished.symm.trans complete) (by simp)
            threads := fun e there => by
              rw [threads e there]
              exact h.first }
  refine ⟨⟨valid, grows_note, fun j other => ?_⟩, { h with log := log, threads := threads }⟩
  exact ⟨le_refl _, fun _ there => there,
    fun first => absurd (h.first.symm.trans first) (by simpa using other.symm),
    fun taken => absurd taken (ours_of_holds h.holds j other)⟩

/-- The end of a part of the shutdown that writes one of the `traces`. No exception leaves
    it. -/
def Wrote (i : ι) (order : List ShutdownHook) (before body : List (Entry ι))
    (traces : List (Entry ι) → Prop) (threw : Bool) (s : ShutdownCoordinator ι) : Prop :=
  threw = false ∧ ∃ trace, traces trace ∧ Midway i order before (body ++ trace) s

/-- Whatever of the `traces` is written, the shutdown can be completed. -/
def Completes (order : List ShutdownHook) (body : List (Entry ι))
    (traces : List (Entry ι) → Prop) : Prop :=
  ∀ trace, traces trace → ∃ more, Whole order (body ++ (trace ++ more))

theorem Wrote.cons {traces traces' : List (Entry ι) → Prop} {e : Entry ι}
    (longer : ∀ trace, traces trace → traces' (e :: trace)) (threw : Bool)
    (t : ShutdownCoordinator ι) (wrote : Wrote i order before (body ++ [e]) traces threw t) :
    Wrote i order before body traces' threw t := by
  obtain ⟨sound, trace, isTrace, mid⟩ := wrote
  exact ⟨sound, e :: trace, longer trace isTrace, by simpa using mid⟩

theorem Completes.cons {traces traces' : List (Entry ι) → Prop} {e : Entry ι}
    (completes : Completes order body traces') (longer : ∀ trace, traces trace → traces' (e :: trace)) :
    Completes order (body ++ [e]) traces := by
  intro trace isTrace
  obtain ⟨more, whole⟩ := completes _ (longer trace isTrace)
  exact ⟨more, by simpa using whole⟩

theorem Midway.entry {α : Type} {next : CoordProg α} {ends : α → ShutdownCoordinator ι → Prop}
    {traces traces' : List (Entry ι) → Prop} {event : Event}
    (mid : Midway i order before body s) (kept : Valid s)
    (completes : Completes order body traces') (some_ : ∃ trace, traces trace)
    (longer : ∀ trace, traces trace → traces' (⟨i, s.clock, event⟩ :: trace))
    (rest : Completes order (body ++ [⟨i, s.clock, event⟩]) traces →
      Midway i order before (body ++ [⟨i, s.clock, event⟩]) (s.note i event) →
      Valid (s.note i event) → (discipline sort throws).Safe i ends next (s.note i event)) :
    (discipline sort throws).Accepts i s (s.note i event) ∧
      (discipline sort throws).Safe i ends next (s.note i event) := by
  obtain ⟨trace, isTrace⟩ := some_
  obtain ⟨more, whole⟩ := completes _ (longer trace isTrace)
  have ⟨accepted, after⟩ : (discipline sort throws).Accepts i s (s.note i event) ∧ _ :=
    mid.note kept whole
  exact ⟨accepted, rest (completes.cons longer) after accepted.1⟩

theorem handler_safe {α : Type} {ends : α → ShutdownCoordinator ι → Prop} {threw : Bool}
    {p : ShutdownPhase} {hook : ShutdownHook} {next : Bool → CoordProg α}
    (sure : ¬ throws (.error p hook)) (kept : Valid s)
    (rest : ∀ t, Valid t → Rely i s t → (discipline sort throws).Safe i ends (next false) t) :
    (discipline sort throws).Safe i ends ((handler p hook threw).bind next) s := by
  cases threw with
  | false => exact rest s kept (Rely.refl i s)
  | true => exact log_safe sure rest

/-- The lines whose loss does no harm. -/
def Bearable (throws : LogLine → Prop) : Prop :=
  ∀ line, throws line → line = .complete ∨ ∃ hook, line = .drainTimeout hook

theorem Bearable.initiating (bearable : Bearable throws) : ¬ throws .initiating := by
  intro may
  rcases bearable _ may with other | ⟨_, other⟩ <;> cases other

theorem Bearable.phase (bearable : Bearable throws) (p : ShutdownPhase) : ¬ throws (.phase p) := by
  intro may
  rcases bearable _ may with other | ⟨_, other⟩ <;> cases other

theorem Bearable.calling (bearable : Bearable throws) (p : ShutdownPhase) (hook : ShutdownHook) :
    ¬ throws (.calling p hook) := by
  intro may
  rcases bearable _ may with other | ⟨_, other⟩ <;> cases other

theorem Bearable.error (bearable : Bearable throws) (p : ShutdownPhase) (hook : ShutdownHook) :
    ¬ throws (.error p hook) := by
  intro may
  rcases bearable _ may with other | ⟨_, other⟩ <;> cases other

theorem callLoop_safe (bearable : Bearable throws) (p : ShutdownPhase)
    (hooks : List ShutdownHook) (mid : Midway i order before body s) (completes : Completes order body (Loop p never hooks)) :
    (discipline sort throws).Safe i (Wrote i order before body (Loop p never hooks))
      (callLoop p hooks) s := by
  induction hooks generalizing body s with
  | nil => exact fun t _ others => ⟨rfl, [], .nil, by simpa using mid.rely others⟩
  | cons hook rest ih =>
      cases set_ : hook.has p with
      | false =>
          simp only [callLoop, set_, Bool.false_eq_true, if_false]
          refine (ih mid fun trace loop => completes trace (.absent set_ loop)).weaken ?_
          exact fun _ t ⟨sound, trace, loop, mid⟩ => ⟨sound, trace, .absent set_ loop, mid⟩
      | true =>
          simp only [callLoop, set_, if_true]
          refine log_safe (bearable.calling p hook) fun t _ others => ?_
          have mid := mid.rely others
          rintro u kept others threw v rfl
          have longer (trace : List (Entry ι)) (loop : Loop p never rest trace) :=
            Loop.call i u.clock threw set_ loop
          refine (mid.rely others).entry kept completes (loop_exists i p never rest) longer ?_
          intro completes mid kept
          refine handler_safe (bearable.error p hook) kept fun w _ others => ?_
          exact (ih (mid.rely others) completes).weaken (Wrote.cons longer)

theorem drainLoop_safe (bearable : Bearable throws) {begun drainStart : Int}
    (later : begun ≤ drainStart) (hooks : List ShutdownHook) (mid : Midway i order before body s)
    (completes : Completes order body (Loop .drain (Late begun) hooks)) :
    (discipline sort throws).Safe i (Wrote i order before body (Loop .drain (Late begun) hooks))
      (drainLoop drainStart hooks) s := by
  induction hooks generalizing body s with
  | nil => exact fun t _ others => ⟨rfl, [], .nil, by simpa using mid.rely others⟩
  | cons hook rest ih =>
      cases set_ : hook.has .drain with
      | false =>
          simp only [drainLoop, set_, Bool.false_eq_true, if_false]
          refine (ih mid fun trace loop => completes trace (.absent set_ loop)).weaken ?_
          exact fun _ t ⟨sound, trace, loop, mid⟩ => ⟨sound, trace, .absent set_ loop, mid⟩
      | true =>
          simp only [drainLoop, set_, if_true]
          refine log_safe (bearable.calling .drain hook) fun t _ others => ?_
          have mid := mid.rely others
          refine now_safe fun t _ others => ?_
          have mid := mid.rely others
          have some_ := loop_exists i .drain (Late begun) rest
          by_cases remaining : drainTimeout - (t.clock - drainStart) > 0
          · simp only [remaining, if_true]
            rintro u kept others threw v rfl
            have longer (trace : List (Entry ι)) (loop : Loop .drain (Late begun) rest trace) :=
              Loop.call i u.clock threw set_ loop
            refine (mid.rely others).entry kept completes some_ longer ?_
            intro completes mid kept
            refine handler_safe (bearable.error .drain hook) kept fun w _ others => ?_
            exact (ih (mid.rely others) completes).weaken (Wrote.cons longer)
          · simp only [remaining, if_false]
            rintro u kept others _ v rfl
            have late : Late begun u.clock := by
              have after := others.clock
              simp only [Late]
              omega
            have longer (trace : List (Entry ι)) (loop : Loop .drain (Late begun) rest trace) :=
              Loop.timedOut i u.clock set_ late loop
            refine (mid.rely others).entry kept completes some_ longer ?_
            intro completes mid _
            -- whether the warning is logged does not matter
            rintro w kept others threw x ⟨-, rfl⟩
            refine ⟨accepts_read kept, ?_⟩
            have mid := mid.rely others
            refine handler_safe (bearable.error .drain hook) kept fun w _ others => ?_
            exact (ih (mid.rely others) completes).weaken (Wrote.cons longer)

/-- The log of a phase: the line that opens it, and its loop. -/
def Phased (i : ι) (p : ShutdownPhase) (late : Int → Int → Prop) (hooks : List ShutdownHook)
    (trace : List (Entry ι)) : Prop :=
  ∃ time loop, trace = ⟨i, time, .phase p⟩ :: loop ∧ Loop p (late time) hooks loop

theorem phased_exists (i : ι) (p : ShutdownPhase) (late : Int → Int → Prop)
    (hooks : List ShutdownHook) : ∃ trace, Phased i p late hooks trace := by
  obtain ⟨trace, loop⟩ := loop_exists i p (late 0) hooks
  exact ⟨_, 0, trace, rfl, loop⟩

theorem whole_of_phases {stops drains closes : List (Entry ι)}
    (first : Phased i .stopAccepting (fun _ => never) order stops)
    (second : Phased i .drain Late order drains)
    (third : Phased i .shutdown (fun _ => never) order.reverse closes) :
    Whole order (stops ++ (drains ++ closes)) := by
  obtain ⟨t₁, _, rfl, first⟩ := first
  obtain ⟨t₂, _, rfl, second⟩ := second
  obtain ⟨t₃, _, rfl, third⟩ := third
  exact .mk i t₁ t₂ t₃ first second third

theorem callPhase_safe (bearable : Bearable throws) (p : ShutdownPhase)
    (f : List ShutdownHook → List ShutdownHook)
    (mid : Midway i order before body s)
    (completes : Completes order body (Phased i p (fun _ => never) (f order))) :
    (discipline sort throws).Safe i
      (Wrote i order before body (Phased i p (fun _ => never) (f order)))
      (logged (.phase p) (.step (.phase p) fun _ => .step .hooks fun hooks => callLoop p (f hooks)))
      s := by
  refine log_safe (bearable.phase p) fun t _ others => ?_
  have mid := mid.rely others
  rintro t kept others _ u rfl
  have longer (trace : List (Entry ι)) (loop : Loop p never (f order) trace) :
      Phased i p (fun _ => never) (f order) (⟨i, t.clock, .phase p⟩ :: trace) :=
    ⟨t.clock, trace, rfl, loop⟩
  refine (mid.rely others).entry kept completes (loop_exists i p never _) longer ?_
  intro completes mid _
  refine hooks_safe fun v _ others => ?_
  have mid := mid.rely others
  rw [mid.hooks]
  exact (callLoop_safe bearable p (f order) mid completes).weaken (Wrote.cons longer)

theorem drainPhase_safe (bearable : Bearable throws) (mid : Midway i order before body s)
    (completes : Completes order body (Phased i .drain Late order)) :
    (discipline sort throws).Safe i (Wrote i order before body (Phased i .drain Late order))
      drainPhase s := by
  refine log_safe (bearable.phase .drain) fun t _ others => ?_
  have mid := mid.rely others
  rintro t kept others _ u rfl
  have longer (trace : List (Entry ι)) (loop : Loop .drain (Late t.clock) order trace) :
      Phased i .drain Late order (⟨i, t.clock, .phase .drain⟩ :: trace) :=
    ⟨t.clock, trace, rfl, loop⟩
  refine (mid.rely others).entry kept completes (loop_exists i .drain _ _) longer ?_
  intro completes mid _
  refine now_safe fun v _ others => ?_
  have mid := mid.rely others
  have later : t.clock ≤ v.clock := others.clock
  refine hooks_safe fun w _ others => ?_
  have mid := mid.rely others
  rw [mid.hooks]
  exact (drainLoop_safe bearable later order mid completes).weaken (Wrote.cons longer)

theorem leave_safe {result : Returned} (holds : s.mutex = some i) (first : s.first = some i)
    (complete : s.shutdownComplete = true) :
    (discipline sort throws).Safe i post (leave result) s := by
  refine unlock_safe holds fun t _ others u _ others' => ?_
  obtain ⟨first, same, -⟩ := others.first first
  have same' : u.shutdownComplete = t.shutdownComplete := (others'.first first).2.1
  have complete : u.shutdownComplete = true := same'.trans (same.trans complete)
  cases result with
  | initiated first =>
      cases first with
      | true => exact complete
      | false => trivial
  | registered | waited | threw => trivial

theorem finish_safe (mid : Midway i order before body s) (whole : Whole order body) :
    (discipline sort throws).Safe i post
      (.step .setComplete fun _ => .step (.log .complete) fun threw =>
        leave (if threw then .threw else .initiated true)) s := by
  rintro t kept others _ u rfl
  have mid := mid.rely others
  have valid : Valid { t with shutdownComplete := true } := by
    refine ⟨kept.sorted, ⟨before, body, [], ?_⟩, kept.unset, kept.repeats⟩
    exact { log := by simpa using mid.log
            earlier := mid.earlier
            later := fun _ there => nomatch there
            hooks := by simpa [mid.hooks] using mid.ordered.perm
            begins := fun _ => rfl
            goes := ⟨order, [], mid.ordered, by simpa using whole⟩
            complete := fun _ => ⟨order, mid.ordered, whole⟩
            threads := fun e there => by
              rw [mid.threads e there]
              exact mid.first }
  refine ⟨⟨valid, ⟨List.prefix_refl _, fun _ => rfl⟩, fun j other => ?_⟩, ?_⟩
  · exact ⟨le_refl _, fun _ there => there,
      fun first => absurd (mid.first.symm.trans first) (by simpa using other.symm),
      fun taken => absurd taken (ours_of_holds mid.holds j other)⟩
  · -- whether the last line is logged does not matter
    rintro v kept others threw w ⟨-, rfl⟩
    obtain ⟨first, complete, -⟩ := others.first mid.first
    exact ⟨accepts_read kept, leave_safe (others.holds mid.holds).1 first complete⟩

end Body

theorem phases_safe {order : List ShutdownHook} {before : List (Entry ι)}
    (bearable : Bearable throws) (mid : Midway i order before [] s) (kept : Valid s) :
    (discipline sort throws).Safe i
      (Wrote i order before [] fun trace => Whole order trace)
      (andThen stopPhase (andThen drainPhase shutdownPhase)) s := by
  obtain ⟨someDrains, drained⟩ := phased_exists i .drain Late order
  obtain ⟨someCloses, closed⟩ := phased_exists i .shutdown (fun _ => never) order.reverse
  refine (callPhase_safe bearable .stopAccepting id mid ?_).bind ?_ kept
  · intro stops stopped
    exact ⟨someDrains ++ someCloses, by simpa using whole_of_phases stopped drained closed⟩
  · rintro _ t kept ⟨rfl, stops, stopped, mid⟩
    refine (drainPhase_safe bearable mid ?_).bind ?_ kept
    · intro drains drained
      exact ⟨someCloses, by simpa using whole_of_phases stopped drained closed⟩
    · rintro _ u kept ⟨rfl, drains, drained, mid⟩
      refine (callPhase_safe bearable .shutdown List.reverse mid ?_).weaken ?_
      · intro closes closed
        exact ⟨[], by simpa using whole_of_phases stopped drained closed⟩
      · rintro _ v ⟨rfl, closes, closed, mid⟩
        exact ⟨rfl, _, whole_of_phases stopped drained closed, by simpa using mid⟩

theorem accepts_repeat (kept : Valid s) (set_ : s.shuttingDown = true) :
    (discipline sort throws).Accepts i s { s with repeats := (i, s.log.length) :: s.repeats } := by
  obtain ⟨before, body, after, shape⟩ := kept.shape
  refine ⟨⟨kept.sorted, ⟨before, body, after, { shape with }⟩, ?_, ?_⟩,
    ⟨List.prefix_refl _, id⟩, fun j other => ?_⟩
  · exact fun unset => absurd (set_.symm.trans unset) (by simp)
  · intro j n there
    rcases List.mem_cons.mp there with new | old
    · obtain ⟨rfl, rfl⟩ := Prod.mk.inj new
      exact ⟨le_refl _, by simp⟩
    · exact kept.repeats j n old
  · exact ⟨le_refl _, fun n there => by simpa [other] using there,
      fun first => ⟨first, rfl, id⟩, fun holds => ⟨holds, rfl, rfl⟩⟩

theorem accepts_first (kept : Valid s) (unset : s.shuttingDown = false) :
    (discipline sort throws).Accepts i s { s with shuttingDown := true, first := some i } ∧
      Waiting i { s with shuttingDown := true, first := some i } := by
  obtain ⟨none_, fresh⟩ := kept.unset unset
  obtain ⟨before, body, after, shape⟩ := kept.shape
  -- nobody was first, so nothing was called back
  have nothing : body = [] := List.eq_nil_iff_forall_not_mem.mpr fun e there => by
    simpa [none_] using shape.threads e there
  obtain rfl := nothing
  obtain rfl := shape.begins rfl
  refine ⟨⟨⟨kept.sorted, ⟨before, [], [], ?_⟩, ?_, kept.repeats⟩,
    ⟨List.prefix_refl _, id⟩, fun j other => ?_⟩, ?_⟩
  · exact { shape with threads := fun _ there => nomatch there }
  · exact fun impossible => absurd impossible (by simp)
  · exact ⟨le_refl _, fun n there => there, fun first => absurd (none_.symm.trans first) (by simp),
      fun holds => ⟨holds, rfl, rfl⟩⟩
  · refine ⟨rfl, fun n there => by simp [fresh] at there, ?_, ?_⟩
    · have log : s.log = before := by simpa using shape.log
      exact log ▸ shape.earlier
    · refine Bool.eq_false_iff.mpr fun complete => ?_
      obtain ⟨order, -, whole⟩ := shape.complete complete
      exact Whole.nonempty whole

theorem shutdownRest_safe (bearable : Bearable throws) (waiting : Waiting i s) :
    (discipline sort throws).Safe i post shutdownRest s := by
  refine log_safe bearable.initiating fun t _ others => ?_
  have waiting := waiting.rely others
  refine lock_safe fun u kept others => ?_
  have waiting := waiting.rely others
  have locked : Valid { u with mutex := some i } := kept.congr rfl rfl rfl rfl rfl rfl
  refine (phases_safe bearable (waiting.locked kept) locked).bind ?_ locked
  rintro _ v _ ⟨rfl, trace, whole, mid⟩
  exact finish_safe mid (by simpa using whole)

theorem initiateShutdown_safe (bearable : Bearable throws) :
    (discipline sort throws).Safe i post initiateShutdown s := by
  rintro t kept others r u ⟨rfl, rfl⟩
  cases set_ : t.shuttingDown with
  | true =>
      rw [exchanged, if_pos set_]
      exact ⟨accepts_repeat kept set_, fun _ _ _ => trivial⟩
  | false =>
      rw [exchanged, if_neg (by simp [set_])]
      have ⟨accepted, waiting⟩ : (discipline sort throws).Accepts i t _ ∧ Waiting i _ :=
        accepts_first kept set_
      exact ⟨accepted, shutdownRest_safe bearable waiting⟩

end EmailServer.Core.ShutdownCoordinator
