import EmailServer.Core.ShutdownCoordinator
import EmailServer.Core.Startup

/-! # Orderly shutdown

The first `initiateShutdown` calls the callbacks of the hooks registered before it in
three blocks, and nothing else ever calls them. `Whole` is the log of its three loops;
`Orderly` says what a reader expects of that log.
-/

namespace EmailServer.Core.ShutdownCoordinator

variable {ι : Type}

/-! ## What the log shows -/

/-- The hooks registered in a part of the log. -/
def registered (trace : List (Entry ι)) : List ShutdownHook :=
  trace.filterMap fun e => match e.event with
    | .registered hook => some hook
    | _ => none

/-- The hooks whose callback of phase `p` was called, in the order of the calls. -/
def callbacks (p : ShutdownPhase) (trace : List (Entry ι)) : List ShutdownHook :=
  trace.filterMap fun e => match e.event with
    | .called q hook _ => if q = p then some hook else none
    | _ => none

/-- The hooks whose drain was passed over. -/
def skipped (trace : List (Entry ι)) : List ShutdownHook :=
  trace.filterMap fun e => match e.event with
    | .timedOut hook => some hook
    | _ => none

def phases (trace : List (Entry ι)) : List ShutdownPhase :=
  trace.filterMap fun e => match e.event with
    | .phase p => some p
    | _ => none

/-- An orderly shutdown of the hooks `hooks`. -/
structure Orderly (hooks : List ShutdownHook) (trace : List (Entry ι)) : Prop where
  phases : phases trace = [.stopAccepting, .drain, .shutdown]
  /-- No callback of a later block runs before one of an earlier. -/
  blocks : trace.Pairwise fun a b => a.event.block ≤ b.event.block
  /-- Each callback that is set is called once, whatever the others threw. -/
  stopped : (callbacks .stopAccepting trace).Perm (hooks.filter (·.has .stopAccepting))
  drained : (callbacks .drain trace ++ skipped trace).Perm (hooks.filter (·.has .drain))
  closed : (callbacks .shutdown trace).Perm (hooks.filter (·.has .shutdown))
  stopOrder : (callbacks .stopAccepting trace).Pairwise (·.priority ≤ ·.priority)
  drainOrder : (callbacks .drain trace).Pairwise (·.priority ≤ ·.priority)
  closeOrder : (callbacks .shutdown trace).Pairwise (·.priority ≥ ·.priority)
  /-- A drain is passed over only when the drain phase has lasted for the timeout. -/
  timeouts : ∀ start ∈ trace, start.event = .phase .drain → ∀ e ∈ trace,
    ∀ hook, e.event = .timedOut hook → start.time + drainTimeout ≤ e.time

/-! ## The log of the three loops -/

/-- The log of a loop over `hooks` in phase `p`: what is set is called, or passed over at
    a time that is `late`. -/
inductive Loop (p : ShutdownPhase) (late : Int → Prop) :
    List ShutdownHook → List (Entry ι) → Prop
  | nil : Loop p late [] []
  | absent {hook rest trace} : hook.has p = false → Loop p late rest trace →
      Loop p late (hook :: rest) trace
  | call {hook rest trace} (i time threw) : hook.has p = true → Loop p late rest trace →
      Loop p late (hook :: rest) (⟨i, time, .called p hook threw⟩ :: trace)
  | timedOut {hook rest trace} (i time) : hook.has p = true → late time →
      Loop p late rest trace → Loop p late (hook :: rest) (⟨i, time, .timedOut hook⟩ :: trace)

def never (_ : Int) : Prop := False

/-- When the drain phase began at `start`. -/
def Late (start time : Int) : Prop := start + drainTimeout ≤ time

/-- The log of a shutdown of `order`. -/
inductive Whole (order : List ShutdownHook) : List (Entry ι) → Prop
  | mk (i : ι) (t₁ t₂ t₃ : Int) {stops drains closes : List (Entry ι)} :
      Loop .stopAccepting never order stops → Loop .drain (Late t₂) order drains →
      Loop .shutdown never order.reverse closes →
      Whole order (⟨i, t₁, .phase .stopAccepting⟩ :: stops ++
        (⟨i, t₂, .phase .drain⟩ :: drains ++ ⟨i, t₃, .phase .shutdown⟩ :: closes))

section Views

variable (a b : List (Entry ι)) (p : ShutdownPhase)

theorem registered_append : registered (a ++ b) = registered a ++ registered b :=
  List.filterMap_append

@[simp] theorem callbacks_append : callbacks p (a ++ b) = callbacks p a ++ callbacks p b :=
  List.filterMap_append

@[simp] theorem skipped_append : skipped (a ++ b) = skipped a ++ skipped b :=
  List.filterMap_append

@[simp] theorem phases_append : phases (a ++ b) = phases a ++ phases b :=
  List.filterMap_append

variable (i : ι) (time : Int) (q : ShutdownPhase) (hook : ShutdownHook) (threw : Bool)

@[simp] theorem callbacks_called : callbacks p (⟨i, time, .called q hook threw⟩ :: a) =
    if q = p then hook :: callbacks p a else callbacks p a := by
  by_cases same : q = p <;> simp [callbacks, same]

@[simp] theorem callbacks_phase :
    callbacks p (⟨i, time, .phase q⟩ :: a) = callbacks p a := rfl

@[simp] theorem callbacks_timedOut :
    callbacks p (⟨i, time, .timedOut hook⟩ :: a) = callbacks p a := rfl

@[simp] theorem skipped_called :
    skipped (⟨i, time, .called q hook threw⟩ :: a) = skipped a := rfl

@[simp] theorem skipped_phase : skipped (⟨i, time, .phase q⟩ :: a) = skipped a := rfl

@[simp] theorem skipped_timedOut :
    skipped (⟨i, time, .timedOut hook⟩ :: a) = hook :: skipped a := rfl

@[simp] theorem phases_called :
    phases (⟨i, time, .called q hook threw⟩ :: a) = phases a := rfl

@[simp] theorem phases_phase : phases (⟨i, time, .phase q⟩ :: a) = q :: phases a := rfl

@[simp] theorem phases_timedOut : phases (⟨i, time, .timedOut hook⟩ :: a) = phases a := rfl

end Views

/-- What the log of one loop shows. -/
structure Block (p : ShutdownPhase) (late : Int → Prop) (hooks : List ShutdownHook)
    (trace : List (Entry ι)) : Prop where
  block : ∀ e ∈ trace, e.event.block = p.number
  phases : phases trace = []
  others : ∀ q, q ≠ p → callbacks q trace = []
  called : (callbacks p trace).Sublist (hooks.filter (·.has p))
  all : (callbacks p trace ++ skipped trace).Perm (hooks.filter (·.has p))
  lates : ∀ e ∈ trace, ∀ hook, e.event = .timedOut hook → late e.time
  skips : (∀ time, ¬ late time) → skipped trace = []

theorem Block.opened {p : ShutdownPhase} {late : Int → Prop} {hooks : List ShutdownHook}
    {trace : List (Entry ι)} (block : Block p late hooks trace) (i : ι) (time : Int) :
    ∀ e ∈ ⟨i, time, .phase p⟩ :: trace, e.event.block = p.number :=
  List.forall_mem_cons.mpr ⟨rfl, block.block⟩

theorem Loop.block {p : ShutdownPhase} {late : Int → Prop} {hooks : List ShutdownHook}
    {trace : List (Entry ι)} (loop : Loop p late hooks trace)
    (drains : ∀ time, late time → p = .drain) : Block p late hooks trace := by
  induction loop with
  | nil => constructor <;> simp [callbacks, skipped, ShutdownCoordinator.phases]
  | @absent hook rest trace unset _ ih =>
      have same : (hook :: rest).filter (·.has p) = rest.filter (·.has p) := by simp [unset]
      exact { ih with called := same ▸ ih.called, all := same ▸ ih.all }
  | @call hook rest trace i time threw set_ _ ih =>
      have same : (hook :: rest).filter (·.has p) = hook :: rest.filter (·.has p) := by
        simp [set_]
      constructor
      · exact List.forall_mem_cons.mpr ⟨rfl, ih.block⟩
      · simpa using ih.phases
      · intro q other
        simpa [Ne.symm other] using ih.others q other
      · simpa [same] using ih.called
      · simpa [same] using ih.all
      · exact List.forall_mem_cons.mpr ⟨by simp, ih.lates⟩
      · simpa using ih.skips
  | @timedOut hook rest trace i time set_ late_ _ ih =>
      have same : (hook :: rest).filter (·.has p) = hook :: rest.filter (·.has p) := by
        simp [set_]
      obtain rfl := drains time late_
      constructor
      · exact List.forall_mem_cons.mpr ⟨rfl, ih.block⟩
      · simpa using ih.phases
      · simpa using ih.others
      · simpa [same] using ih.called.cons hook
      · simpa [same] using List.perm_middle.trans (ih.all.cons hook)
      · exact List.forall_mem_cons.mpr ⟨fun _ _ => late_, ih.lates⟩
      · exact fun none_ => absurd late_ (none_ time)

theorem not_phase {trace : List (Entry ι)} (none_ : phases trace = []) {e : Entry ι}
    (there : e ∈ trace) (p : ShutdownPhase) : e.event ≠ .phase p := by
  intro isPhase
  have read := List.filterMap_eq_nil_iff.mp none_ e there
  simp [isPhase] at read

theorem level {trace : List (Entry ι)} {n : Nat} (same : ∀ e ∈ trace, e.event.block = n) :
    trace.Pairwise fun a b => a.event.block ≤ b.event.block :=
  List.pairwise_of_forall_mem_list fun a first b second =>
    Nat.le_of_eq ((same a first).trans (same b second).symm)

/-- The three loops shut down in order whatever was registered in whichever order. -/
theorem Whole.orderly {order hooks : List ShutdownHook} {trace : List (Entry ι)}
    (whole : Whole order trace) (perm : order.Perm hooks)
    (sorted : order.Pairwise (·.priority ≤ ·.priority)) : Orderly hooks trace := by
  obtain @⟨i, t₁, t₂, t₃, stops', drains', closes', stops, drains, closes⟩ := whole
  have stops := stops.block fun _ impossible => impossible.elim
  have drains := drains.block fun _ _ => rfl
  have closes := closes.block fun _ impossible => impossible.elim
  have noSkip := stops.skips fun _ impossible => impossible
  have noSkip' := closes.skips fun _ impossible => impossible
  have first := stops.opened i t₁
  have second := drains.opened i t₂
  have third := closes.opened i t₃
  have reversed : (order.reverse.filter (·.has .shutdown)).Perm (order.filter (·.has .shutdown)) :=
    (List.reverse_perm order).filter _
  constructor
  · simp [stops.phases, drains.phases, closes.phases]
  · refine List.pairwise_append.mpr
      ⟨level first, List.pairwise_append.mpr ⟨level second, level third, ?_⟩, ?_⟩
    · intro a early b late
      rw [second a early, third b late]
      decide
    · intro a early b late
      rw [first a early]
      rcases List.mem_append.mp late with drained | closed
      · rw [second b drained]
        decide
      · rw [third b closed]
        decide
  · have all := stops.all.trans (perm.filter _)
    simpa [drains.others, closes.others, noSkip] using all
  · have all := drains.all.trans (perm.filter _)
    simpa [stops.others, closes.others, noSkip, noSkip'] using all
  · have all := closes.all.trans (reversed.trans (perm.filter _))
    simpa [stops.others, drains.others, noSkip'] using all
  · have called := sorted.sublist (stops.called.trans List.filter_sublist)
    simpa [drains.others, closes.others] using called
  · have called := sorted.sublist (drains.called.trans List.filter_sublist)
    simpa [stops.others, closes.others] using called
  · have back := List.pairwise_reverse.mpr sorted
    have called := back.sublist (closes.called.trans List.filter_sublist)
    simpa [stops.others, drains.others] using called
  · -- both entries are in the second block, and the first of them opens it
    have within : ∀ e ∈ (⟨i, t₁, .phase .stopAccepting⟩ :: stops' ++
        (⟨i, t₂, .phase .drain⟩ :: drains' ++ ⟨i, t₃, .phase .shutdown⟩ :: closes') :
          List (Entry ι)), e.event.block = 2 → e ∈ ⟨i, t₂, .phase .drain⟩ :: drains' := by
      intro e there isSecond
      rcases List.mem_append.mp there with inFirst | rest
      · exact absurd ((first e inFirst).symm.trans isSecond) (by decide)
      · rcases List.mem_append.mp rest with inSecond | inThird
        · exact inSecond
        · exact absurd ((third e inThird).symm.trans isSecond) (by decide)
    intro start there isStart e also hook isSkip
    have openEntry := within start there (by rw [isStart]; rfl)
    have skipEntry := within e also (by rw [isSkip]; rfl)
    rcases List.mem_cons.mp openEntry with rfl | inside
    · rcases List.mem_cons.mp skipEntry with rfl | inside
      · cases isSkip
      · exact drains.lates e inside hook isSkip
    · exact absurd isStart (not_phase drains.phases inside .drain)

end EmailServer.Core.ShutdownCoordinator
