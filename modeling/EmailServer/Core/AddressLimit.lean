import Mathlib.Algebra.BigOperators.Group.List.Basic
import EmailServer.Core.ConnectionManager
import EmailServer.Library.Trace

/-! # The limit of connections per address

A call of `tryAcquireConnection` takes the count of its address for outdated
when the last attempt is more than five minutes ago, although the connections it
counts may still be open. Until that happens, the count is that of the open
connections, and they are within the limit.
-/

namespace EmailServer.Core

/-- A call that has returned. -/
inductive ConnCall where
  | tryAcquireConnection (ip : Bytes) (acquired : Bool)
  | releaseConnection (ip : Bytes)

/-- What a call changes in the number of open connections of an address. -/
def ConnCall.adds (ip : Bytes) : ConnCall → Int
  | .tryAcquireConnection other acquired => if other = ip ∧ acquired = true then 1 else 0
  | .releaseConnection other => if other = ip then -1 else 0

structure TimedCall where
  now : Int
  call : ConnCall

/-- A call made when the clock shows `now`. -/
inductive ConnectionManager.Step : ConnectionManager → TimedCall → ConnectionManager → Prop
  | tryAcquireConnection {m now ip acquired m'} :
      (ConnectionManager.tryAcquireConnection ip).Runs (ConnOp.EffectAt now) m acquired m' →
      Step m ⟨now, .tryAcquireConnection ip acquired⟩ m'
  | releaseConnection {m now ip m'} :
      (ConnectionManager.releaseConnection ip).Runs (ConnOp.EffectAt now) m () m' →
      Step m ⟨now, .releaseConnection ip⟩ m'

/-- A call with the managers around it. -/
abbrev Served := Taken TimedCall ConnectionManager

/-- The connections of an address that were acquired and not released. -/
def openConnections (ip : Bytes) (past : List Served) : Int :=
  (past.map fun x => x.label.call.adds ip).sum

@[simp] theorem openConnections_nil (ip : Bytes) : openConnections ip [] = 0 := rfl

@[simp] theorem openConnections_concat (ip : Bytes) (past : List Served) (x : Served) :
    openConnections ip (past ++ [x]) = openConnections ip past + x.label.call.adds ip := by
  simp [openConnections]

/-- Only an open connection is released. -/
def Matched (past : List Served) (x : Served) : Prop :=
  ∀ ip, x.label.call = .releaseConnection ip → 0 < openConnections ip past

/-- The time at which a call asks for a connection of the address, unless the
    global limit turns it down. -/
def Served.attempt? (ip : Bytes) (x : Served) : Option Int :=
  match x.label.call with
  | .tryAcquireConnection other _ =>
      if other = ip ∧ x.before.activeConnections < x.before.globalMax then some x.label.now else none
  | .releaseConnection _ => none

/-- The last attempt of the address is more than five minutes ago, and it has
    connections that are still open. -/
def Forgets (past : List Served) (x : Served) : Prop :=
  ∃ ip now last, x.attempt? ip = some now ∧ latest (Served.attempt? ip) past = some last ∧
    minutes 5 < now - last ∧ 0 < openConnections ip past

/-- After the call, `getConnectionsForIP` tells how many connections an address has
    open, and they are within the limit. -/
def Exact (perIPMax : Int) (past : List Served) (x : Served) : Prop :=
  ∀ ip, x.after.getConnectionsForIP ip = openConnections ip (past ++ [x]) ∧
    openConnections ip (past ++ [x]) ≤ perIPMax

/-! ## What a call does -/

namespace ConnectionManager

variable {m m' : ConnectionManager} {now : Int} {ip other : Bytes}

/-- The count that an attempt starts from. -/
def currentCount (now : Int) (ip : Bytes) (m : ConnectionManager) : Int :=
  if now - ((m.ipConnections ip).getD {}).lastAccess > minutes 5 then 0
  else m.getConnectionsForIP ip

theorem getConnectionsForIP_eq (ip : Bytes) (m : ConnectionManager) :
    m.getConnectionsForIP ip = ((m.ipConnections ip).getD {}).count := by
  cases found : m.ipConnections ip <;> simp [getConnectionsForIP, found]

theorem getConnectionsForIP_congr (same : m'.ipConnections ip = m.ipConnections ip) :
    m'.getConnectionsForIP ip = m.getConnectionsForIP ip := by
  unfold getConnectionsForIP
  rw [same]

theorem enterIP_other (different : other ≠ ip) :
    (m.enterIP now ip).2.ipConnections other = m.ipConnections other := by
  simp [enterIP, different]

theorem enterIP_self : (m.enterIP now ip).2.ipConnections ip =
    some ⟨m.currentCount now ip + if (m.enterIP now ip).1 then 1 else 0, now⟩ := by
  simp only [enterIP, currentCount, getConnectionsForIP_eq, Function.update_self]
  split <;> split <;> simp_all

theorem enterIP_entered : (m.enterIP now ip).1 = true ↔ m.currentCount now ip < m.perIPMax := by
  simp only [enterIP, currentCount, getConnectionsForIP_eq]
  split <;> simp

theorem leaveIP_limit : (m.leaveIP ip).perIPMax = m.perIPMax := by
  unfold leaveIP
  split
  · rfl
  · split <;> rfl

theorem leaveIP_other (different : other ≠ ip) :
    (m.leaveIP ip).ipConnections other = m.ipConnections other := by
  unfold leaveIP
  split
  · rfl
  · split
    · simp [different]
    · rfl

theorem leaveIP_self (counted : 0 < m.getConnectionsForIP ip) :
    ∃ ipConn, m.ipConnections ip = some ipConn ∧
      (m.leaveIP ip).ipConnections ip = some { ipConn with count := ipConn.count - 1 } := by
  unfold getConnectionsForIP at counted
  cases found : m.ipConnections ip with
  | none => simp [found] at counted
  | some ipConn =>
      have positive : ipConn.count > 0 := by simpa [found] using counted
      exact ⟨ipConn, rfl, by simp [leaveIP, found, positive]⟩

theorem tryAcquireConnection_runs {acquired : Bool}
    (run : (tryAcquireConnection ip).Runs (ConnOp.EffectAt now) m acquired m') :
    (m.globalMax ≤ m.activeConnections ∧ acquired = false ∧ m' = m) ∨
      (m.activeConnections < m.globalMax ∧ acquired = (m.enterIP now ip).1 ∧
        m'.ipConnections = (m.enterIP now ip).2.ipConnections ∧ m'.perIPMax = m.perIPMax) := by
  obtain ⟨current, m₁, ⟨active, same₁⟩, max, m₂, ⟨limit, same₂⟩, run⟩ := run
  rw [same₂, same₁, limit, active, same₁] at run
  by_cases full : m.activeConnections ≥ m.globalMax
  · simp only [full, if_true, Prog.runs_pure] at run
    exact .inl ⟨full, run⟩
  · simp only [full, if_false, Prog.runs_step] at run
    obtain ⟨entered, mid, effect, run⟩ := run
    have first : entered = (m.enterIP now ip).1 := congrArg Prod.fst effect
    have second : mid = (m.enterIP now ip).2 := congrArg Prod.snd effect
    have limit : mid.perIPMax = m.perIPMax := by rw [second]; rfl
    refine .inr ⟨Int.not_le.mp full, ?_⟩
    rw [← first, ← second]
    cases entered with
    | false =>
        obtain ⟨rfl, rfl⟩ := run
        exact ⟨rfl, rfl, limit⟩
    | true =>
        obtain ⟨_, last, counted, rfl, rfl⟩ := run
        rw [show m' = _ from counted]
        exact ⟨rfl, rfl, limit⟩

theorem releaseConnection_runs
    (run : (releaseConnection ip).Runs (ConnOp.EffectAt now) m () m') :
    m'.ipConnections = (m.leaveIP ip).ipConnections ∧ m'.perIPMax = m.perIPMax := by
  obtain ⟨_, mid, decremented, _, last, left, -, rfl⟩ := run
  rw [show m' = mid.leaveIP ip from left]
  have counts : mid.ipConnections = m.ipConnections := by rw [show mid = _ from decremented]
  have limit : mid.perIPMax = m.perIPMax := by rw [show mid = _ from decremented]
  refine ⟨?_, by rw [leaveIP_limit, limit]⟩
  unfold leaveIP
  rw [counts]
  split
  · exact counts
  · split
    · rfl
    · exact counts

end ConnectionManager

theorem ConnCall.adds_le (ip : Bytes) (call : ConnCall) : call.adds ip ≤ 1 := by
  cases call with
  | tryAcquireConnection | releaseConnection =>
      unfold ConnCall.adds
      split <;> omega

/-- What a call does to the entry of every address. -/
structure Recounts (x : Served) : Prop where
  limit : x.after.perIPMax = x.before.perIPMax
  connections : ∀ ip, x.after.getConnectionsForIP ip =
    (if (x.attempt? ip).isSome then x.before.currentCount x.label.now ip
      else x.before.getConnectionsForIP ip) + x.label.call.adds ip
  access : ∀ ip, (x.after.ipConnections ip).map IPConnection.lastAccess =
    (x.attempt? ip).or ((x.before.ipConnections ip).map IPConnection.lastAccess)
  room : ∀ ip, 0 < x.label.call.adds ip →
    x.before.currentCount x.label.now ip < x.before.perIPMax ∧ (x.attempt? ip).isSome

theorem attempt_recounts {m m' : ConnectionManager} {now : Int} {ip : Bytes} {acquired : Bool}
    (run : (ConnectionManager.tryAcquireConnection ip).Runs (ConnOp.EffectAt now) m acquired m') :
    Recounts ⟨⟨now, .tryAcquireConnection ip acquired⟩, m, m'⟩ := by
  rcases ConnectionManager.tryAcquireConnection_runs run with
    ⟨full, rfl, rfl⟩ | ⟨free, entered, entries, limit⟩
  · constructor <;> simp [Served.attempt?, Int.not_lt.mpr full, ConnCall.adds]
  · have other : ∀ other, other ≠ ip → m'.ipConnections other = m.ipConnections other := by
      intro other different
      rw [entries, ConnectionManager.enterIP_other different]
    have here : m'.ipConnections ip =
        some ⟨m.currentCount now ip + if acquired then 1 else 0, now⟩ := by
      rw [entries, ConnectionManager.enterIP_self, ← entered]
    constructor
    · exact limit
    · intro ip'
      by_cases this : ip = ip'
      · subst this
        simp [Served.attempt?, free, ConnCall.adds, ConnectionManager.getConnectionsForIP, here]
      · rw [ConnectionManager.getConnectionsForIP_congr (other ip' (Ne.symm this))]
        simp [Served.attempt?, ConnCall.adds, this]
    · intro ip'
      by_cases this : ip = ip'
      · subst this
        simp [Served.attempt?, free, here]
      · simp [Served.attempt?, this, other ip' (Ne.symm this)]
    · intro ip' added
      simp only [ConnCall.adds] at added
      split at added
      · rename_i both
        obtain ⟨rfl, rfl⟩ := both
        exact ⟨ConnectionManager.enterIP_entered.mp entered.symm, by simp [Served.attempt?, free]⟩
      · omega

theorem release_recounts {m m' : ConnectionManager} {now : Int} {ip : Bytes}
    (run : (ConnectionManager.releaseConnection ip).Runs (ConnOp.EffectAt now) m () m')
    (counted : 0 < m.getConnectionsForIP ip) :
    Recounts ⟨⟨now, .releaseConnection ip⟩, m, m'⟩ := by
  obtain ⟨entries, limit⟩ := ConnectionManager.releaseConnection_runs run
  obtain ⟨ipConn, found, left⟩ := ConnectionManager.leaveIP_self counted
  have other : ∀ other, other ≠ ip → m'.ipConnections other = m.ipConnections other := by
    intro other different
    rw [entries, ConnectionManager.leaveIP_other different]
  constructor
  · exact limit
  · intro ip'
    by_cases this : ip = ip'
    · subst this
      simp [Served.attempt?, ConnCall.adds, ConnectionManager.getConnectionsForIP, entries, left,
        found, sub_eq_add_neg]
    · rw [ConnectionManager.getConnectionsForIP_congr (other ip' (Ne.symm this))]
      simp [Served.attempt?, ConnCall.adds, this]
  · intro ip'
    by_cases this : ip = ip'
    · subst this
      simp [Served.attempt?, entries, left, found]
    · simp [Served.attempt?, other ip' (Ne.symm this)]
  · intro ip' added
    simp only [ConnCall.adds] at added
    split at added <;> omega

/-! ## Runs -/

/-- How a manager stands between calls: the times of its entries are those of the
    last attempts, and the counts those of the open connections. -/
structure Faithful (perIPMax : Int) (past : List Served) (m : ConnectionManager) : Prop where
  limit : m.perIPMax = perIPMax
  access : ∀ ip, (m.ipConnections ip).map IPConnection.lastAccess = latest (Served.attempt? ip) past
  counts : ∀ ip, m.getConnectionsForIP ip = openConnections ip past
  nonneg : ∀ ip, 0 ≤ openConnections ip past
  bounded : 0 ≤ perIPMax → ∀ ip, openConnections ip past ≤ perIPMax

section Step

variable {perIPMax : Int} {past : List Served} {x : Served}

theorem step_recounts (step : ConnectionManager.Step x.before x.label x.after)
    (faithful : Faithful perIPMax past x.before) (matched : Matched past x) : Recounts x := by
  obtain ⟨⟨now, call⟩, m, m'⟩ := x
  cases step with
  | tryAcquireConnection run => exact attempt_recounts run
  | releaseConnection run =>
      apply release_recounts run
      rw [faithful.counts]
      exact matched _ rfl

theorem attempt_now {ip : Bytes} {now : Int} (attempted : x.attempt? ip = some now) :
    now = x.label.now := by
  unfold Served.attempt? at attempted
  split at attempted
  · split at attempted
    · exact (Option.some.inj attempted).symm
    · cases attempted
  · cases attempted

/-- An attempt starts from the right count unless it comes too late. -/
theorem currentCount_eq (faithful : Faithful perIPMax past x.before) {ip : Bytes} {now : Int} :
    x.before.currentCount now ip = openConnections ip past ↔
      ¬ ∃ last, latest (Served.attempt? ip) past = some last ∧ minutes 5 < now - last ∧
        0 < openConnections ip past := by
  have nonneg := faithful.nonneg ip
  rw [← faithful.access, ConnectionManager.currentCount, ← faithful.counts] at *
  cases found : x.before.ipConnections ip with
  | none => simp [ConnectionManager.getConnectionsForIP, found]
  | some ipConn =>
      simp only [Option.getD_some, Option.map_some, Option.some.injEq, exists_eq_left', gt_iff_lt]
      split <;> omega

theorem openConnections_nonneg (faithful : Faithful perIPMax past x.before)
    (matched : Matched past x) (ip : Bytes) : 0 ≤ openConnections ip (past ++ [x]) := by
  have nonneg := faithful.nonneg ip
  rw [openConnections_concat]
  cases called : x.label.call with
  | tryAcquireConnection other acquired =>
      simp only [ConnCall.adds]
      split <;> omega
  | releaseConnection other =>
      simp only [ConnCall.adds]
      split
      · rename_i same
        subst same
        have opened := matched other called
        omega
      · omega

/-- After a call the count of every address is right, and within the limit, unless
    the call has forgotten open connections. -/
theorem recounts_exact (faithful : Faithful perIPMax past x.before) (recounts : Recounts x)
    (matched : Matched past x) :
    Exact perIPMax past x ↔ 0 ≤ perIPMax ∧ ¬ Forgets past x := by
  constructor
  · intro exact_
    refine ⟨(openConnections_nonneg faithful matched []).trans (exact_ []).2, ?_⟩
    rintro ⟨ip, now, last, attempted, late, long, opened⟩
    have same : now = x.label.now := attempt_now attempted
    have counted := recounts.connections ip
    rw [attempted, Option.isSome_some, if_pos rfl, (exact_ ip).1, openConnections_concat] at counted
    have current : x.before.currentCount x.label.now ip = openConnections ip past := by omega
    exact (currentCount_eq faithful).mp current ⟨last, late, same ▸ long, opened⟩
  · intro ⟨limit, remembers⟩ ip
    have within := faithful.bounded limit ip
    have counted := recounts.connections ip
    have added := ConnCall.adds_le ip x.label.call
    have start : ∀ now, x.attempt? ip = some now →
        x.before.currentCount x.label.now ip = openConnections ip past := by
      intro now attempted
      rw [currentCount_eq faithful]
      intro ⟨last, late, long, opened⟩
      exact remembers ⟨ip, now, last, attempted, late, (attempt_now attempted) ▸ long, opened⟩
    rw [openConnections_concat]
    constructor
    · cases attempted : x.attempt? ip with
      | none => simpa [attempted, faithful.counts] using counted
      | some now => simpa [attempted, start now attempted] using counted
    · by_cases adds : 0 < x.label.call.adds ip
      · obtain ⟨room, attempted⟩ := recounts.room ip adds
        obtain ⟨now, attempted⟩ := Option.isSome_iff_exists.mp attempted
        rw [start now attempted, faithful.limit] at room
        omega
      · omega

theorem recounts_faithful (faithful : Faithful perIPMax past x.before) (recounts : Recounts x)
    (matched : Matched past x) (exact_ : Exact perIPMax past x) :
    Faithful perIPMax (past ++ [x]) x.after where
  limit := by rw [recounts.limit, faithful.limit]
  access ip := by rw [recounts.access, faithful.access, latest_concat]
  counts ip := (exact_ ip).1
  nonneg := openConnections_nonneg faithful matched
  bounded _ ip := (exact_ ip).2

end Step

/-- For every run of calls in which only open connections are released: the counts
    are exact and within the limit after every call if and only if the limit is not
    negative and no call forgets open connections. -/
theorem address_limit_iff {globalMax perIPMax : Int} {past : List Served} {m : ConnectionManager}
    (run : Trace ConnectionManager.Step (.initial globalMax perIPMax) past m)
    (matched : Along Matched [] past) :
    Along (Exact perIPMax) [] past ↔
      Along (fun past x => 0 ≤ perIPMax ∧ ¬ Forgets past x) [] past := by
  have initial : Faithful perIPMax [] (.initial globalMax perIPMax) :=
    ⟨rfl, fun _ => rfl, fun _ => rfl, fun _ => le_refl 0, fun limit _ => limit⟩
  constructor
  · intro exact_
    have along := (run.invariant (matched.and exact_) initial ?_).2
    · apply along.mono
      intro past x ⟨⟨step, matched, exact_⟩, faithful, _⟩
      exact (recounts_exact faithful (step_recounts step faithful matched) matched).mp exact_
    · intro past s l t faithful step ⟨matched, exact_⟩
      exact recounts_faithful faithful (step_recounts step faithful matched) matched exact_
  · intro remembers
    have along := (run.invariant (matched.and remembers) initial ?_).2
    · apply along.mono
      intro past x ⟨⟨step, matched, remembers⟩, faithful, _⟩
      exact (recounts_exact faithful (step_recounts step faithful matched) matched).mpr remembers
    · intro past s l t faithful step ⟨matched, remembers⟩
      have recounts := step_recounts step faithful matched
      have exact_ := (recounts_exact faithful recounts matched).mpr remembers
      exact recounts_faithful faithful recounts matched exact_

/-! ## Two connections -/

theorem attempt_step {m : ConnectionManager} {now : Int} {ip : Bytes}
    (free : m.activeConnections < m.globalMax) (room : m.currentCount now ip < m.perIPMax) :
    m.Step ⟨now, .tryAcquireConnection ip true⟩
      { (m.enterIP now ip).2 with activeConnections := m.activeConnections + 1 } := by
  have entered : (m.enterIP now ip).1 = true := ConnectionManager.enterIP_entered.mpr room
  refine .tryAcquireConnection ⟨_, m, ⟨rfl, rfl⟩, _, m, ⟨rfl, rfl⟩, ?_⟩
  dsimp only
  rw [if_neg (Int.not_le.mpr free)]
  refine ⟨true, (m.enterIP now ip).2, Prod.ext entered.symm rfl, ?_⟩
  exact ⟨(), _, rfl, rfl, rfl⟩

def oneAddress : Bytes := ascii "192.0.2.1"

/-- The manager when the address has this count, since an attempt at `now`. -/
def countedManager (active count now : Int) : ConnectionManager where
  activeConnections := active
  globalMax := 1000
  perIPMax := 1
  ipConnections := Function.update (fun _ => none) oneAddress (some ⟨count, now⟩)

theorem first_attempt : (ConnectionManager.initial 1000 1).Step
    ⟨0, .tryAcquireConnection oneAddress true⟩ (countedManager 1 1 0) :=
  @attempt_step (.initial 1000 1) 0 oneAddress (by decide) (by decide)

/-- The address is refused a second connection, gives the first one back and comes again after ten
    minutes. -/
theorem address_limit_iff_again : ∃ past m,
    Trace ConnectionManager.Step (.initial 1000 1) past m ∧
      (past.map fun x => x.label.call) =
        [.tryAcquireConnection oneAddress true, .tryAcquireConnection oneAddress false,
          .releaseConnection oneAddress, .tryAcquireConnection oneAddress true] ∧
      Along (Exact 1) [] past := by
  have refused : (countedManager 1 1 0).Step ⟨1000000000, .tryAcquireConnection oneAddress false⟩
      ((countedManager 1 1 0).enterIP 1000000000 oneAddress).2 := by
    refine .tryAcquireConnection ⟨_, _, ⟨rfl, rfl⟩, _, _, ⟨rfl, rfl⟩, ?_⟩
    exact ⟨false, _, rfl, rfl, rfl⟩
  have released := @ConnectionManager.Step.releaseConnection
    ((countedManager 1 1 0).enterIP 1000000000 oneAddress).2 2000000000 oneAddress _
    ⟨(), _, rfl, (), _, rfl, rfl, rfl⟩
  have run := (((Trace.nil.snoc first_attempt).snoc refused).snoc released).snoc
    (@attempt_step _ (minutes 10) oneAddress (by decide) (by decide))
  -- no attempt finds a connection of long ago open
  have others : ∀ {ip : Bytes} {x : Served} {now : Int} {acquired : Bool},
      x.label.call = .tryAcquireConnection oneAddress acquired → x.attempt? ip = some now →
        ip = oneAddress := by
    intro ip x now acquired call asks
    by_contra other
    simp [Served.attempt?, call, Ne.symm other] at asks
  refine ⟨_, _, run, rfl, (address_limit_iff run ?_).mpr ?_⟩
  · refine ⟨?_, ?_, ?_, ?_, trivial⟩
    · exact fun ip call => nomatch call
    · exact fun ip call => nomatch call
    · rintro ip call
      cases call
      decide
    · exact fun ip call => nomatch call
  · refine ⟨⟨by decide, ?_⟩, ⟨by decide, ?_⟩, ⟨by decide, ?_⟩, ⟨by decide, ?_⟩, trivial⟩
    · rintro ⟨ip, now, last, -, never, -⟩
      cases never
    · rintro ⟨ip, now, last, asks, before, late, -⟩
      obtain rfl := others rfl asks
      cases asks
      cases before
      exact absurd late (by decide)
    · rintro ⟨ip, now, last, asks, -⟩
      cases asks
    · rintro ⟨ip, now, last, asks, -, -, open_⟩
      obtain rfl := others rfl asks
      exact absurd open_ (by decide)

/-- After five minutes and a second a second connection is let in beside the first,
    and counted as the only one. -/
theorem connection_forgotten : ∃ past m,
    Trace ConnectionManager.Step (.initial 1000 1) past m ∧ Along Matched [] past ∧
      openConnections oneAddress past = 2 ∧ m.perIPMax = 1 ∧ m.getConnectionsForIP oneAddress = 1 ∧
      ¬ Along (Exact 1) [] past := by
  have second : (countedManager 1 1 0).Step
      ⟨minutes 5 + 1000000000, .tryAcquireConnection oneAddress true⟩ _ :=
    attempt_step (by decide) (by decide)
  have run : Trace ConnectionManager.Step (.initial 1000 1) _ _ :=
    .snoc (.snoc .nil first_attempt) second
  refine ⟨_, _, run, ?_, by decide, rfl, by decide, ?_⟩
  · refine ⟨?_, ?_, trivial⟩ <;> intro ip released <;> cases released
  · intro ⟨_, exact_, _⟩
    exact absurd (exact_ oneAddress).2 (by decide)

end EmailServer.Core
