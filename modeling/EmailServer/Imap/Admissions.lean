import EmailServer.Imap.ImapServer

/-! # Admitted connections

The limiter of an address is a counter of fixed windows, which the accept loop hits
and the session threads give back. In a minute it admits at most twice its limit,
and one connection more for each session that has ended in time to make room.
-/

namespace EmailServer.Imap

open EmailServer.Core

/-- A step with the servers around it. -/
abbrev Served := Taken ImapLabel ImapServer

/-- How a step uses the counter of an address. -/
def ImapLabel.uses (ip : Bytes) : ImapLabel → Option TimedUse
  | .operation now (.allowConnection other) => if other = ip then some ⟨now, .hit⟩ else none
  | .operation now (.releaseConnection other) => if other = ip then some ⟨now, .giveBack⟩ else none
  | _ => none

namespace Served

variable (ip : Bytes) (x : Served)

/-- A connection of the address is admitted. -/
def admits : Bool :=
  match x.label with
  | .operation now (.allowConnection other) =>
      other == ip && (x.before.shared.limiter.allowConnection now ip).1
  | _ => false

/-- The end of a session makes room: the counter of its address is within the limit,
    and lowered. -/
def frees : Bool :=
  match x.label with
  | .operation _ (.releaseConnection other) =>
      other == ip && decide (0 < (x.before.shared.limiter.counter ip).count ∧
        (x.before.shared.limiter.counter ip).count ≤ CONN_LIMIT)
  | _ => false

/-- The step is taken in the minute that begins with `start`. -/
def within (start : Int) : Bool :=
  match x.label with
  | .turn => false
  | .operation now _ => decide (start ≤ now ∧ now ≤ start + minutes 1)

/-- What the step is to the counter of the address. -/
def used : Option Used :=
  (x.label.uses ip).map fun l =>
    ⟨l, x.before.shared.limiter.counter ip, x.after.shared.limiter.counter ip⟩

end Served

/-- How many connections of an address are admitted in the minute that begins with `start`. -/
def admissions (ip : Bytes) (start : Int) (past : List Served) : Nat :=
  past.countP fun x => x.within start && x.admits ip

section Steps

variable {port : Nat} {globalMaxConnections : Int} {ip : Bytes} {s t : ImapServer} {l : ImapLabel}

theorem effect_counter {now : Int} {op : ImapOp} {s t : Shared} {r : op.Res}
    (effect : op.EffectAt now s r t) : t.limiter.counter ip =
      ((ImapLabel.operation now op).uses ip).elim (s.limiter.counter ip)
        ((s.limiter.counter ip).after (minutes 1)) := by
  cases op with
  | allowConnection other =>
      have counted : t.limiter = (s.limiter.allowConnection now other).2 := congrArg Prod.snd effect.1
      rw [counted, RateLimiter.allowConnection_counter]
      by_cases this : other = ip
      · simp [this, ImapLabel.uses, Counter.after]
      · simp [this, Ne.symm this, ImapLabel.uses]
  | releaseConnection other =>
      rw [show t = _ from effect, RateLimiter.releaseConnection_counter]
      by_cases this : other = ip
      · simp [this, ImapLabel.uses, Counter.after]
      · simp [this, Ne.symm this, ImapLabel.uses]
  | loadActive => rw [show t = s from effect.2]; rfl
  | increment | decrement | accept | closeSocket | spawn | handshake | runSession =>
      rw [show t = _ from effect]
      rfl

theorem step_counter (step : ImapServer.Step port globalMaxConnections s l t) :
    t.shared.limiter.counter ip = (l.uses ip).elim (s.shared.limiter.counter ip)
      ((s.shared.limiter.counter ip).after (minutes 1)) := by
  cases step with
  | turn => rfl
  | loop _ _ effect => exact effect_counter effect
  | session _ _ effect => exact effect_counter effect

theorem used_step (step : ImapServer.Step port globalMaxConnections s l t) {use : TimedUse}
    (uses : l.uses ip = some use) : Counter.Step (minutes 1) (s.shared.limiter.counter ip) use
      (t.shared.limiter.counter ip) := by
  rw [Counter.Step, step_counter step, uses]
  rfl

theorem admits_used (step : ImapServer.Step port globalMaxConnections s l t) (start : Int) :
    (Served.within ⟨l, s, t⟩ start && Served.admits ip ⟨l, s, t⟩) =
      ((Served.used ip ⟨l, s, t⟩).map fun x =>
        x.within (minutes 1) start && x.admitted CONN_LIMIT).getD false := by
  have counter := @step_counter _ _ ip _ _ _ step
  cases l with
  | turn => rfl
  | operation now op =>
      cases op with
      | allowConnection other =>
          by_cases this : other = ip
          · simp only [ImapLabel.uses, this, if_true, Option.elim_some] at counter
            simp [Served.within, Served.admits, Served.used, ImapLabel.uses, Used.within,
              Used.admitted, RateLimiter.allowConnection, this, counter, Counter.after]
          · simp [Served.admits, Served.used, ImapLabel.uses, this]
      | releaseConnection other =>
          by_cases this : other = ip <;>
            simp [Served.admits, Served.used, ImapLabel.uses, Used.admitted, this]
      | _ => simp [Served.admits, Served.used, ImapLabel.uses]

theorem frees_used (x : Served) (start : Int) :
    (x.within start && x.frees ip) = ((x.used ip).map fun x =>
        x.within (minutes 1) start && x.freed CONN_LIMIT).getD false := by
  obtain ⟨l, s, t⟩ := x
  cases l with
  | turn => rfl
  | operation now op =>
      cases op with
      | allowConnection other | releaseConnection other =>
          by_cases this : other = ip <;>
            simp [Served.within, Served.frees, Served.used, ImapLabel.uses, Used.within, Used.freed,
              this]
      | _ => simp [Served.frees, Served.used, ImapLabel.uses]

theorem step_clock (step : ImapServer.Step port globalMaxConnections s l t) :
    s.clock ≤ t.clock ∧ ∀ use, l.uses ip = some use → s.clock ≤ use.now ∧ use.now = t.clock := by
  have timed : ∀ {now op use}, (ImapLabel.operation now op).uses ip = some use → use.now = now := by
    intro now op use uses
    cases op with
    | allowConnection other | releaseConnection other =>
        simp only [ImapLabel.uses] at uses
        split at uses
        · cases uses
          rfl
        · cases uses
    | _ => cases uses
  cases step with
  | turn => exact ⟨le_refl _, fun use uses => nomatch uses⟩
  | loop later | session later =>
      refine ⟨later, fun use uses => ?_⟩
      rw [timed uses]
      exact ⟨later, rfl⟩

end Steps

section Runs

variable {port : Nat} {globalMaxConnections clock : Int} {limiter : RateLimiter} {past : List Served}
  {s : ImapServer}

theorem within_clock {start : Int}
    (run : Trace (ImapServer.Step port globalMaxConnections) (.start limiter clock) past s) :
    ∀ x ∈ past, x.within start = true → start ≤ s.clock := by
  induction run with
  | nil => simp
  | @snoc past s l t _ taken ih =>
      have later := (@step_clock _ _ [] _ _ _ taken).1
      refine forall_concat (fun x member within => (ih x member within).trans later) fun within => ?_
      cases taken with
      | turn => cases within
      | loop | session => exact (of_decide_eq_true within).1

theorem used_ordered (ip : Bytes)
    (run : Trace (ImapServer.Step port globalMaxConnections) (.start limiter clock) past s) :
    (past.filterMap (Served.used ip)).Pairwise (fun x y => x.label.now ≤ y.label.now) ∧
      ∀ x ∈ past.filterMap (Served.used ip), x.label.now ≤ s.clock := by
  induction run with
  | nil => simp
  | @snoc past s l t _ taken ih =>
      obtain ⟨ordered, last⟩ := ih
      obtain ⟨later, timed⟩ := @step_clock _ _ ip _ _ _ taken
      have old : ∀ x ∈ past.filterMap (Served.used ip), x.label.now ≤ t.clock :=
        fun x member => (last x member).trans later
      rw [List.filterMap_append]
      cases uses : l.uses ip with
      | none =>
          simp only [List.filterMap_cons, List.filterMap_nil, Served.used, uses, Option.map_none,
            List.append_nil]
          exact ⟨ordered, old⟩
      | some use =>
          obtain ⟨_, here⟩ := timed use uses
          simp only [List.filterMap_cons, List.filterMap_nil, Served.used, uses, Option.map_some]
          exact ⟨pairwise_concat ordered fun x member => (old x member).trans here.ge,
            forall_concat old here.le⟩

/-- In every minute of every run, at most twice the limit is admitted of an address, and
    one connection more for each session that has ended in it and made room. -/
theorem admissions_le (ip : Bytes) (start : Int)
    (run : Trace (ImapServer.Step port globalMaxConnections) (.start limiter clock) past s) :
    admissions ip start past ≤
      2 * CONN_LIMIT + past.countP fun x => x.within start && x.frees ip := by
  have counters : Trace (Counter.Step (minutes 1)) (limiter.counter ip)
      (past.filterMap (Served.used ip)) (s.shared.limiter.counter ip) :=
    run.project (fun s l t step rests => by rw [step_counter step, rests]; rfl)
      fun s l t use step uses => used_step step uses
  have bound := @admitted_le (minutes 1) start CONN_LIMIT _ _ _ (by decide) counters (used_ordered ip run).1
  simp only [countWithin, List.countP_filterMap] at bound
  calc admissions ip start past
      = past.countP fun x => ((x.used ip).map fun y =>
          y.within (minutes 1) start && y.admitted CONN_LIMIT).getD false :=
        List.countP_congr fun x member => by rw [admits_used (run.steps x member) start]
    _ ≤ 2 * CONN_LIMIT + past.countP fun x => ((x.used ip).map fun y =>
          y.within (minutes 1) start && y.freed CONN_LIMIT).getD false := bound
    _ = 2 * CONN_LIMIT + past.countP fun x => x.within start && x.frees ip := by
        congr 1
        exact List.countP_congr fun x _ => by rw [frees_used x start]

/-- In every run, a minute in which no end of a session makes room admits at most twice
    the limit. -/
theorem connections_limited (ip : Bytes) (start : Int)
    (run : Trace (ImapServer.Step port globalMaxConnections) (.start limiter clock) past s)
    (kept : ∀ x ∈ past, x.within start = true → x.frees ip = false) :
    admissions ip start past ≤ 2 * CONN_LIMIT := by
  have bound := admissions_le ip start run
  have nothing : (past.countP fun x => x.within start && x.frees ip) = 0 := by
    rw [List.countP_eq_zero]
    intro x member freed
    rw [Bool.and_eq_true] at freed
    exact absurd freed.2 (by simp [kept x member freed.1])
  rwa [nothing] at bound

end Runs

/-! ## A client that reconnects -/

def client : Bytes := ascii "192.0.2.1"

section Reconnecting

variable {start : ImapServer} {past : List Served} {limiter : RateLimiter}
  {old : List (ImapProg Unit)}

theorem client_admitted {now : Int} (later : 0 ≤ now)
    (run : Trace (ImapServer.Step 143 1000) start past ⟨⟨limiter, 0⟩, 0, .pure (), old⟩)
    (room : limiter.counter client = {}) : ∃ past' old',
      Trace (ImapServer.Step 143 1000) start past' ⟨⟨(limiter.allowConnection now client).2, 0⟩, now,
        .step (.spawn client) fun _ => .pure (), old'⟩ ∧
      admissions client now past' = admissions client now past + 1 ∧ past ⊆ past' ∧
      ∀ x ∈ past', x ∈ past ∨ Served.frees client x = false := by
  have allowed : (limiter.allowConnection now client).1 = true := by
    rw [RateLimiter.allowConnection, room]
    simp only [Counter.hit]
    split <;> rfl
  have turn := run.snoc (.turn rfl)
  have load := turn.snoc (.loop (le_refl 0) rfl ⟨rfl, rfl⟩)
  have accept := load.snoc
    (@ImapServer.Step.loop _ _ _ _ _ _ (some (some client)) _ (le_refl 0) rfl rfl)
  have allow := accept.snoc (@ImapServer.Step.loop _ _ _ _ _ _ true
    ⟨(limiter.allowConnection now client).2, 0⟩ later rfl ⟨Prod.ext allowed.symm rfl, rfl⟩)
  refine ⟨_, _, allow, ?_, ?_, ?_⟩
  · simp [admissions, Served.within, Served.admits, allowed, minutes]
  · simp only [List.append_assoc]
    exact List.subset_append_left _ _
  · intro x member
    simp only [List.mem_append, List.mem_singleton] at member
    rcases member with (((earlier | rfl) | rfl) | rfl) | rfl
    · exact .inl earlier
    all_goals exact .inr rfl

theorem last_session {s t : Shared} {op : ImapOp} {next : op.Res → ImapProg Unit} {r : op.Res}
    (effect : op.EffectAt 0 s r t) : ImapServer.Step 143 1000 ⟨s, 0, .pure (), old ++ [.step op next]⟩
      (.operation 0 op) ⟨t, 0, .pure (), old ++ [next r]⟩ :=
  .session (le_refl 0) rfl effect

/-- The client connects and disconnects, which makes room, and the limiter is as before. -/
theorem client_reconnects
    (run : Trace (ImapServer.Step 143 1000) start past ⟨⟨limiter, 0⟩, 0, .pure (), old⟩)
    (room : limiter.counter client = {}) : ∃ past' limiter' old',
      Trace (ImapServer.Step 143 1000) start past' ⟨⟨limiter', 0⟩, 0, .pure (), old'⟩ ∧
      limiter'.counter client = {} ∧
      admissions client 0 past' = admissions client 0 past + 1 ∧
      ∃ x ∈ past', Served.frees client x = true := by
  obtain ⟨past', old', admitted, more, -, -⟩ := client_admitted (le_refl 0) run room
  have spawn := admitted.snoc (@ImapServer.Step.loop _ _ _ _ _ _ () _ (le_refl 0) rfl rfl)
  have increment := spawn.snoc (last_session (r := ()) rfl)
  have runSession := increment.snoc (last_session (r := ()) rfl)
  have closeSocket := runSession.snoc (last_session (r := ()) rfl)
  have decrement := closeSocket.snoc (last_session (r := ()) rfl)
  have release := decrement.snoc (last_session (r := ()) rfl)
  have counted : ((limiter.allowConnection 0 client).2.counter client) = ⟨1, 0⟩ := by
    rw [RateLimiter.allowConnection_counter, if_pos rfl, room]
    rfl
  refine ⟨_, _, _, release, ?_, ?_, ?_⟩
  · rw [RateLimiter.releaseConnection_counter, if_pos rfl, counted]
    rfl
  · rw [← more]
    simp [admissions, Served.admits]
  · refine ⟨_, List.mem_append_right _ (List.mem_singleton_self _), ?_⟩
    simp [Served.frees, counted, CONN_LIMIT]

theorem client_reconnects_often (n : Nat) : ∃ past limiter old,
    Trace (ImapServer.Step 143 1000) (.start ⟨fun _ => none⟩ 0) past
      ⟨⟨limiter, 0⟩, 0, .pure (), old⟩ ∧
    limiter.counter client = {} ∧ admissions client 0 past = n := by
  induction n with
  | zero => exact ⟨[], ⟨fun _ => none⟩, [], .nil, rfl, rfl⟩
  | succ n ih =>
      obtain ⟨past, limiter, old, run, room, before⟩ := ih
      obtain ⟨past', limiter', old', run', room', more, -⟩ := client_reconnects run room
      exact ⟨past', limiter', old', run', room', by rw [more, before]⟩

/-- A client disconnects before the minute, and comes again in it. -/
theorem connections_limited_again : ∃ past s,
    Trace (ImapServer.Step 143 1000) (.start ⟨fun _ => none⟩ 0) past s ∧
    (∃ x ∈ past, Served.frees client x = true) ∧
    admissions client 1 past = 1 ∧ admissions client 1 past ≤ 2 * CONN_LIMIT := by
  obtain ⟨past, limiter, old, run, room, -, freed⟩ :=
    @client_reconnects (.start ⟨fun _ => none⟩ 0) [] ⟨fun _ => none⟩ [] .nil rfl
  have early : ∀ x ∈ past, Served.within x 1 = false := fun x member =>
    Bool.eq_false_iff.mpr fun within => absurd (within_clock run x member within) (by norm_num)
  have before : admissions client 1 past = 0 := by
    rw [admissions, List.countP_eq_zero]
    intro x member
    simp [early x member]
  obtain ⟨past', _, run', one, more, kept⟩ := client_admitted zero_le_one run room
  rw [before] at one
  refine ⟨past', _, run', freed.imp fun x freed => ⟨more freed.1, freed.2⟩, one,
    connections_limited client 1 run' ?_⟩
  intro x member within
  rcases kept x member with old | kept
  · rw [early x old] at within
    cases within
  · exact kept

/-- A client that connects and disconnects is admitted sixty-one times in a minute. -/
theorem reconnecting_unlimited : ∃ past s,
    Trace (ImapServer.Step 143 1000) (.start ⟨fun _ => none⟩ 0) past s ∧
    2 * CONN_LIMIT < admissions client 0 past := by
  obtain ⟨past, limiter, old, run, _, often⟩ := client_reconnects_often (2 * CONN_LIMIT + 1)
  exact ⟨past, _, run, by omega⟩

end Reconnecting

end EmailServer.Imap
