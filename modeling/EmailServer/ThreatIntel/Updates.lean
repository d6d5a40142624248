import EmailServer.ThreatIntel.SenderReputation

/-! # No update is lost or counted twice

The map is what was loaded plus the updates it accounts for, the file likewise. An update
whose call goes on to save is accounted for in memory, so the next save, by whichever
thread, writes it.
-/

namespace EmailServer.ThreatIntel

/-! ## What a map accounts for -/

/-- `senders` is `base` plus the updates `updates`. -/
def Accounts (base : Senders) (updates : List Update) (senders : Senders) : Prop :=
  ∀ domain, senders.entry domain =
    { maliciousCount := (base.entry domain).maliciousCount + updates.count (.malicious domain)
      cleanCount := (base.entry domain).cleanCount + updates.count (.clean domain) }

namespace Senders

variable (senders : Senders) (domain : Bytes)

theorem score_entry : senders.score domain =
    (senders.entry domain).maliciousCount - (senders.entry domain).cleanCount := by
  simp only [score, entry]
  cases senders.lookup domain <;> rfl

theorem entry_record (u : Update) : (senders.record u).entry domain =
    { maliciousCount := (senders.entry domain).maliciousCount +
        if u = .malicious domain then 1 else 0
      cleanCount := (senders.entry domain).cleanCount + if u = .clean domain then 1 else 0 } := by
  cases u with
  | malicious other | clean other =>
      by_cases same : domain = other
      · subst same
        simp [record, entry]
      · simp [record, entry, Finmap.lookup_insert_of_ne _ same, Ne.symm same]

end Senders

namespace Accounts

variable {base senders : Senders} {updates : List Update}

theorem refl (base : Senders) : Accounts base [] base := fun domain => by simp

theorem record (h : Accounts base updates senders) (u : Update) :
    Accounts base (updates ++ [u]) (senders.record u) := by
  have one : ∀ v, (((updates ++ [u]).count v : Nat) : Int) =
      updates.count v + if u = v then 1 else 0 := by
    intro v
    by_cases same : u = v <;> simp [same]
  intro domain
  rw [senders.entry_record, h domain, one, one]
  simp only [add_assoc]

theorem score (h : Accounts base updates senders) (domain : Bytes) :
    senders.score domain =
      base.score domain + updates.count (.malicious domain) - updates.count (.clean domain) := by
  rw [senders.score_entry, base.score_entry, h domain]
  dsimp only
  omega

end Accounts

/-- The updates with these places. -/
def pick (made : List Update) (places : List Nat) : List Update :=
  places.filterMap fun n => made[n]?

theorem pick_concat {made : List Update} {places : List Nat}
    (within : ∀ n ∈ places, n < made.length) (u : Update) :
    pick (made ++ [u]) places = pick made places := by
  refine List.filterMap_congr fun n there => ?_
  rw [List.getElem?_append_left (within n there)]

theorem pick_new {made : List Update} {places : List Nat}
    (within : ∀ n ∈ places, n < made.length) (u : Update) :
    pick (made ++ [u]) (places ++ [made.length]) = pick made places ++ [u] := by
  have old := pick_concat within u
  simp only [pick, List.filterMap_append] at old ⊢
  rw [old]
  simp

namespace SenderReputationStore

variable {codec : Codec Senders} {base : Senders} {s t : SenderReputationStore}

/-! ## The store -/

/-- The file holds `base` and each of the updates it accounts for once. -/
structure Filed (codec : Codec Senders) (base : Senders) (s : SenderReputationStore) : Prop where
  file : Accounts base (pick s.made s.saved) (s.read codec)
  within : ∀ n ∈ s.saved, n < s.made.length
  once : s.saved.Nodup

/-- So does the memory, which is ahead of the file. -/
structure Running (codec : Codec Senders) (base : Senders) (s : SenderReputationStore) : Prop
    extends Filed codec base s where
  memory : Accounts base (pick s.made s.kept) s.senders
  recent : Accounts s.loaded (s.made.drop s.since) s.senders
  loads : s.since ≤ s.made.length
  ahead : ∀ n ∈ s.saved, n ∈ s.kept
  keptWithin : ∀ n ∈ s.kept, n < s.made.length
  keptOnce : s.kept.Nodup

theorem Filed.crash (h : Filed codec base s) : Filed codec base s.crash :=
  ⟨h.file, h.within, h.once⟩

theorem Filed.load (h : Filed codec base s) : Running codec base (s.load codec) where
  file := h.file
  within := h.within
  once := h.once
  memory := h.file
  recent := by simpa [SenderReputationStore.load] using Accounts.refl (s.read codec)
  loads := le_refl _
  ahead _ there := there
  keptWithin := h.within
  keptOnce := h.once

theorem Running.update (h : Running codec base s) (u : Update) : Running codec base (s.update u) where
  file := by
    show Accounts base (pick (s.made ++ [u]) s.saved) (s.read codec)
    rw [pick_concat h.within u]
    exact h.file
  within n there := by
    have bound := h.within n there
    simp [SenderReputationStore.update]
    omega
  once := h.once
  memory := by
    show Accounts base (pick (s.made ++ [u]) (s.kept ++ [s.made.length])) (s.senders.record u)
    rw [pick_new h.keptWithin u]
    exact h.memory.record u
  recent := by
    show Accounts s.loaded ((s.made ++ [u]).drop s.since) (s.senders.record u)
    rw [List.drop_append_of_le_length h.loads]
    exact h.recent.record u
  loads := h.loads.trans (by simp [SenderReputationStore.update])
  ahead n there := List.mem_append_left _ (h.ahead n there)
  keptWithin n there := by
    rcases List.mem_append.mp there with old | new
    · have bound := h.keptWithin n old
      simp [SenderReputationStore.update]
      omega
    · simp [SenderReputationStore.update, List.mem_singleton.mp new]
  keptOnce := by
    refine List.nodup_append.mpr ⟨h.keptOnce, by simp, ?_⟩
    rintro n old m new rfl
    have bound := h.keptWithin n old
    simp at new
    omega

theorem Running.saveUnlocked (h : Running codec base s) :
    Running codec base (s.saveUnlocked codec) where
  file := by
    have read : (s.saveUnlocked codec).read codec = s.senders := by
      simp [SenderReputationStore.read, SenderReputationStore.saveUnlocked, codec.decode_encode]
    rw [read]
    exact h.memory
  within := h.keptWithin
  once := h.keptOnce
  memory := h.memory
  recent := h.recent
  loads := h.loads
  ahead _ there := there
  keptWithin := h.keptWithin
  keptOnce := h.keptOnce

/-! ## The threads -/

/-- Where a call can stand. -/
inductive Placed (s : SenderReputationStore) : RepProg Returned → Prop
  | call {p} : Call p → Placed s p
  | saving {u n} : n ∈ s.kept → s.made[n]? = some u → Placed s (saving u n)
  | recorded {u n} : n ∈ s.saved → s.made[n]? = some u → Placed s (.pure (.recorded u n))
  | scored {domain n} : Placed s (.pure (.scored domain n))

theorem made_mono (made : s.made <+: t.made) {n : Nat} {u : Update}
    (isMade : s.made[n]? = some u) : t.made[n]? = some u := by
  obtain ⟨rest, all⟩ := made
  rw [← all, List.getElem?_append_left (List.getElem?_eq_some_iff.mp isMade).1]
  exact isMade

theorem Placed.mono {p : RepProg Returned} (h : Placed s p) (kept : s.kept ⊆ t.kept)
    (saved : s.saved ⊆ t.saved) (made : s.made <+: t.made) : Placed t p := by
  cases h with
  | call isCall => exact .call isCall
  | saving there isMade => exact .saving (kept there) (made_mono made isMade)
  | recorded there isMade => exact .recorded (saved there) (made_mono made isMade)
  | scored => exact .scored

def Returned.place : Returned → Option Nat
  | .recorded _ n => some n
  | .scored _ _ => none

/-- The place of the update that a call has made. -/
def held : RepProg Returned → Option Nat
  | .pure a => a.place
  | .step .save next => held (next ())
  | .step _ _ => none

theorem call_held {p : RepProg Returned} (isCall : Call p) : held p = none := by
  cases isCall <;> rfl

theorem Placed.within {p : RepProg Returned} (h : Placed s p) (kept : Running codec base s) {n : Nat}
    (holds : held p = some n) : n < s.made.length := by
  cases h with
  | call isCall => simp [call_held isCall] at holds
  | saving there _ =>
      obtain rfl := Option.some.inj holds
      exact kept.keptWithin _ there
  | recorded there _ =>
      obtain rfl := Option.some.inj holds
      exact kept.within _ there
  | scored => cases holds

variable {ι : Type} {pool next : Pool ι Op Res Returned SenderReputationStore}

/-- Each call stands where it can, and no two calls have made the same update. -/
structure Threads (pool : Pool ι Op Res Returned SenderReputationStore) : Prop where
  placed : ∀ i p, pool.running i = some p → Placed pool.shared p
  returned : ∀ u n, .recorded u n ∈ pool.returned →
    n ∈ pool.shared.saved ∧ pool.shared.made[n]? = some u
  once : (pool.returned.filterMap Returned.place).Nodup
  running : ∀ i p n, pool.running i = some p → held p = some n →
    n ∉ pool.returned.filterMap Returned.place
  apart : ∀ i j p q n, i ≠ j → pool.running i = some p → pool.running j = some q →
    held p = some n → held q ≠ some n

theorem Threads.crash (h : Threads pool) :
    Threads ({ pool with shared := pool.shared.crash, running := fun _ => none } :
      Pool ι Op Res Returned SenderReputationStore) where
  placed _ _ runs := by cases runs
  returned := h.returned
  once := h.once
  running _ _ _ runs := by cases runs
  apart _ _ _ _ _ _ runs := by cases runs

variable [DecidableEq ι]

theorem Threads.go {i : ι} {q : RepProg Returned} (h : Threads pool)
    (kept : pool.shared.kept ⊆ t.kept) (saved : pool.shared.saved ⊆ t.saved)
    (made : pool.shared.made <+: t.made) (placed : Placed t q)
    (fresh : ∀ n, held q = some n → (∃ p, pool.running i = some p ∧ held p = some n) ∨
      (∀ j p, pool.running j = some p → held p ≠ some n) ∧
        n ∉ pool.returned.filterMap Returned.place) :
    Threads { pool with shared := t, running := Function.update pool.running i (some q) } := by
  have others : ∀ j p n, j ≠ i → pool.running j = some p → held q = some n → held p ≠ some n := by
    intro j p n other runs holds
    rcases fresh n holds with ⟨q, runs', holds'⟩ | ⟨nobody, _⟩
    · exact h.apart i j q p n (Ne.symm other) runs' runs holds'
    · exact nobody j p runs
  constructor
  · intro j p runs
    by_cases same : j = i
    · subst same
      obtain rfl : q = p := by simpa using runs
      exact placed
    · exact (h.placed j p (by simpa [same] using runs)).mono kept saved made
  · intro u n there
    obtain ⟨isSaved, isMade⟩ := h.returned u n there
    exact ⟨saved isSaved, made_mono made isMade⟩
  · exact h.once
  · intro j p n runs holds
    by_cases same : j = i
    · subst same
      obtain rfl : q = p := by simpa using runs
      rcases fresh n holds with ⟨p, runs, holds⟩ | ⟨_, new⟩
      · exact h.running j p n runs holds
      · exact new
    · exact h.running j p n (by simpa [same] using runs) holds
  · intro j k p p' n different runs runs' holds
    by_cases same : j = i
    · subst same
      obtain rfl : q = p := by simpa using runs
      exact others k p' n (Ne.symm different) (by simpa [Ne.symm different] using runs') holds
    · by_cases same' : k = i
      · subst same'
        obtain rfl : q = p' := by simpa using runs'
        exact fun holds' => others j p n same (by simpa [same] using runs) holds' holds
      · exact h.apart j k p p' n different (by simpa [same] using runs)
          (by simpa [same'] using runs') holds

theorem Threads.stop (h : Threads pool) (i : ι) :
    Threads { pool with running := Function.update pool.running i none } := by
  have still : ∀ j p, Function.update pool.running i none j = some p → pool.running j = some p := by
    intro j p runs
    by_cases same : j = i
    · simp [same] at runs
    · simpa [same] using runs
  exact ⟨fun j p runs => h.placed j p (still j p runs), h.returned, h.once,
    fun j p n runs => h.running j p n (still j p runs),
    fun j k p q n different runs runs' => h.apart j k p q n different (still j p runs)
      (still k q runs')⟩

theorem Threads.finish {i : ι} {a : Returned} (h : Threads pool)
    (runs : pool.running i = some (.pure a)) :
    Threads { pool with
      running := Function.update pool.running i none
      returned := a :: pool.returned } := by
  have rest := h.stop i
  cases place : a.place with
  | none =>
      have same : (a :: pool.returned).filterMap Returned.place =
          pool.returned.filterMap Returned.place := List.filterMap_cons_none place
      refine ⟨rest.placed, ?_, same ▸ rest.once, same ▸ rest.running, rest.apart⟩
      intro u n there
      rcases List.mem_cons.mp there with rfl | old
      · cases place
      · exact h.returned u n old
  | some m =>
      have more : (a :: pool.returned).filterMap Returned.place =
          m :: pool.returned.filterMap Returned.place := List.filterMap_cons_some place
      refine ⟨rest.placed, ?_, ?_, ?_, rest.apart⟩
      · intro u n there
        rcases List.mem_cons.mp there with rfl | old
        · cases h.placed i _ runs with
          | call isCall => cases isCall
          | recorded there isMade => exact ⟨there, isMade⟩
        · exact h.returned u n old
      · rw [more]
        exact List.nodup_cons.mpr ⟨h.running i _ m runs place, h.once⟩
      · intro j p n runs' holds
        rw [more]
        refine List.not_mem_cons_of_ne_of_not_mem ?_ (rest.running j p n runs' holds)
        rintro rfl
        by_cases same : j = i
        · simp [same] at runs'
        · exact h.apart j i p _ n same (by simpa [same] using runs') runs holds place

/-! ## Runs -/

/-- In every reachable state. -/
structure Sound (codec : Codec Senders) (base : Senders) (sys : System ι) : Prop where
  filed : Filed codec base sys.pool.shared
  running : sys.up = true → Running codec base sys.pool.shared
  threads : Threads sys.pool
  down : sys.up = false → sys.pool.Quiescent

theorem Sound.operated {i : ι} {op : Op} {after : Res op → RepProg Returned} {r : Res op}
    (running : Running codec base pool.shared) (threads : Threads pool)
    (runs : pool.running i = some (.step op after)) (effect : sem codec op pool.shared r t) :
    Running codec base t ∧
      Threads { pool with shared := t, running := Function.update pool.running i (some (after r)) } := by
  cases threads.placed i _ runs with
  | call isCall =>
      have record (u : Update) (same : Prog.step op after = record u) : Running codec base t ∧
          Threads { pool with
            shared := t, running := Function.update pool.running i (some (after r)) } := by
        cases same
        obtain ⟨rfl, rfl⟩ := effect
        refine ⟨running.update u, threads.go (List.subset_append_left _ _) (List.Subset.refl _)
          (List.prefix_append _ _) (.saving (by simp [update]) (by simp [update])) ?_⟩
        intro n holds
        obtain rfl : pool.shared.made.length = n := Option.some.inj holds
        refine .inr ⟨fun j p runs holds => ?_, fun there => ?_⟩
        · exact absurd ((threads.placed j p runs).within running holds) (lt_irrefl _)
        · obtain ⟨a, returned, place⟩ := List.mem_filterMap.mp there
          cases a with
          | recorded v m =>
              obtain rfl := Option.some.inj place
              have bound := running.within _ (threads.returned v _ returned).1
              exact absurd bound (lt_irrefl _)
          | scored => cases place
      generalize isStep : Prog.step op after = p at isCall
      cases isCall with
      | recordMalicious domain => exact record (.malicious domain) isStep
      | recordClean domain => exact record (.clean domain) isStep
      | score domain =>
          cases isStep
          obtain ⟨-, rfl⟩ := effect
          exact ⟨running, threads.go (List.Subset.refl _) (List.Subset.refl _)
            (List.prefix_refl _) .scored fun n holds => nomatch holds⟩
  | @saving u n there isMade =>
      obtain rfl := effect
      refine ⟨running.saveUnlocked, threads.go (List.Subset.refl _) running.ahead
        (List.prefix_refl _) (.recorded there isMade) fun m holds => .inl ⟨_, runs, holds⟩⟩

theorem Sound.step {sys sys' : System ι} (h : Sound codec base sys) (step : Step codec sys sys') :
    Sound codec base sys' := by
  cases step with
  | @run pool next step =>
      have running := h.running rfl
      have both : Running codec base next.shared ∧ Threads next := by
        cases step with
        | call idle isCall =>
            exact ⟨running, h.threads.go (List.Subset.refl _) (List.Subset.refl _)
              (List.prefix_refl _) (.call isCall) fun n holds => by simp [call_held isCall] at holds⟩
        | operate runs effect => exact Sound.operated running h.threads runs effect
        | finish runs => exact ⟨running, h.threads.finish runs⟩
        | die i => exact ⟨running, h.threads.stop i⟩
        | around impossible => exact impossible.elim
      exact ⟨both.1.toFiled, fun _ => both.1, both.2, nofun⟩
  | crash => exact ⟨h.filed.crash, nofun, h.threads.crash, fun _ _ => rfl⟩
  | @start pool =>
      have quiet : pool.Quiescent := h.down rfl
      have running := h.filed.load
      refine ⟨running.toFiled, fun _ => running, ?_, nofun⟩
      exact { placed := fun i p runs => absurd ((quiet i).symm.trans runs) nofun
              returned := h.threads.returned
              once := h.threads.once
              running := h.threads.running
              apart := h.threads.apart }

omit [DecidableEq ι] in
theorem Sound.installed (earlier : Option Senders) :
    Sound codec (earlier.getD ∅) (installed codec earlier : System ι) where
  filed := by
    have read : (SenderReputationStore.read codec { db := earlier.map codec.encode }) =
        earlier.getD ∅ := by
      cases earlier with
      | none => rfl
      | some senders => simp [SenderReputationStore.read, codec.decode_encode]
    refine ⟨?_, nofun, .nil⟩
    show Accounts _ [] (SenderReputationStore.read codec { db := earlier.map codec.encode })
    rw [read]
    exact .refl _
  running := nofun
  threads := ⟨nofun, nofun, .nil, nofun, nofun⟩
  down _ _ := rfl

/-- While the server is up, the score of a domain is the one it was loaded with, plus the
    malicious updates executed since then, minus the clean ones. At any moment, up or down,
    what the file holds is what it held at first and some of the updates that were executed,
    each counted once; among them are those of all the calls that have returned, different
    calls having made different updates. -/
theorem updates_kept {sys : System ι} (codec : Codec Senders) (earlier : Option Senders)
    (run : Relation.ReflTransGen (Step codec) (installed codec earlier) sys) :
    (sys.up = true → ∀ domain, sys.pool.shared.senders.score domain =
      sys.pool.shared.loaded.score domain +
        (sys.pool.shared.made.drop sys.pool.shared.since).count (.malicious domain) -
        (sys.pool.shared.made.drop sys.pool.shared.since).count (.clean domain)) ∧
    (sys.pool.returned.filterMap Returned.place).Nodup ∧
    ∃ saved : List Nat, saved.Nodup ∧ (∀ n ∈ saved, n < sys.pool.shared.made.length) ∧
      (∀ u n, .recorded u n ∈ sys.pool.returned → n ∈ saved ∧ sys.pool.shared.made[n]? = some u) ∧
      Accounts (earlier.getD ∅) (pick sys.pool.shared.made saved) (sys.pool.shared.read codec) := by
  have sound : Sound codec (earlier.getD ∅) sys := by
    induction run with
    | refl => exact .installed earlier
    | tail _ step ih => exact ih.step step
  refine ⟨fun isUp => (sound.running isUp).recent.score, sound.threads.once, sys.pool.shared.saved,
    sound.filed.once, sound.filed.within, sound.threads.returned, sound.filed.file⟩

instance : Countable SenderReputation :=
  have counts : Function.Injective fun r : SenderReputation => (r.maliciousCount, r.cleanCount) :=
    fun ⟨_, _⟩ ⟨_, _⟩ same => by simpa using same
  counts.countable

/-- `nlohmann::json::dump(2)` of one malicious mail. -/
def evilText : Bytes := ascii
  "\x7b\n  \"evil.com\": \x7b\n    \"clean\": 0,\n    \"malicious\": 1\n  \x7d\n\x7d"

/-- A malicious mail is recorded and counts after a crash. -/
theorem updates_kept_evil : ∃ (codec : Codec Senders) (sys : System Bool),
    codec.encode ((∅ : Senders).record (.malicious (ascii "evil.com"))) = evilText ∧
    .recorded (.malicious (ascii "evil.com")) 0 ∈ sys.pool.returned ∧ sys.up = true ∧
    sys.pool.shared.made = [.malicious (ascii "evil.com")] ∧
    ∃ saved : List Nat, saved.Nodup ∧ 0 ∈ saved ∧
      Accounts ∅ (pick [.malicious (ascii "evil.com")] saved) (sys.pool.shared.read codec) := by
  let evil : Update := .malicious (ascii "evil.com")
  let codec := (Codec.ofCountable Senders).writing ((∅ : Senders).record evil) evilText
  let up : SenderReputationStore := SenderReputationStore.load codec { db := none }
  have record : Relation.ReflTransGen (Pool.Step (fun _ : Bool => sem codec) Call fun _ _ => False)
      (Pool.start up) _ :=
    Pool.call_alone (i := true) _ rfl (.recordMalicious (ascii "evil.com"))
      ⟨0, _, ⟨rfl, rfl⟩, (), _, rfl, rfl, rfl⟩
  have run : Relation.ReflTransGen (Step codec) (installed codec none : System Bool) _ :=
    .tail (.tail (.head .start (record.lift (System.mk true) fun _ _ => .run)) .crash) .start
  obtain ⟨-, -, saved, once, -, returned, file⟩ := updates_kept codec none run
  exact ⟨codec, _, Codec.writing_encode _ _ _, .head _, rfl, rfl, saved, once,
    (returned evil 0 (.head _)).1, file⟩

end SenderReputationStore

end EmailServer.ThreatIntel
