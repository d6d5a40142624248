import EmailServer.Imap.Sockets

/-! # Every socket with its owner

Where a session thread stands says whether it still has its socket. As long as no thread
closes its handle a second time, everyone who has not closed a socket owns it.
-/

namespace EmailServer.Imap

open EmailServer.Core

variable {Handle : Type}

/-! ## One thread -/

/-- The program is behind its `closesocket`. -/
def behindClose : ImapProg Unit → Bool
  | .step .decrement _ | .step (.releaseConnection _) _ | .pure _ => true
  | _ => false

namespace SessionThread

/-- The thread has not closed its socket. -/
def holds (th : SessionThread Handle) : Bool :=
  match th.run with
  | some run => run.conn.session.sockOpen
  | none => !behindClose th.rest

def held (th : SessionThread Handle) : Option (Held Handle) :=
  if th.holds then some th.client else none

/-- A session that was called has closed the socket. -/
def Shut (run : Option SessionRun) : Prop := ∀ r ∈ run, r.conn.session.sockOpen = false

/-- Where a session thread can be: what is left of its program fits where `run` is. -/
inductive Placed (port : Nat) (ip : Bytes) : Option SessionRun → ImapProg Unit → Prop
  | started : Placed port ip none (sessionThread port ip)
  | handshaking : Placed port ip none (.step .handshake fun established =>
      if !established then endSession ip else .step .runSession fun _ => endSession ip)
  | waiting : Placed port ip none (.step .runSession fun _ => endSession ip)
  | running {run} : run.Kept → Placed port ip (some run) (.step .runSession fun _ => endSession ip)
  | refused : Placed port ip none (endSession ip)
  | ended {c} : c.session.sockOpen = false →
      Placed port ip (some (.returned c)) (endSession ip)
  | closed {run} : Shut run → Placed port ip run
      (.step .decrement fun _ => .step (.releaseConnection ip) fun _ => .pure ())
  | countedOff {run} : Shut run → Placed port ip run (.step (.releaseConnection ip) fun _ => .pure ())
  | done {run} : Shut run → Placed port ip run (.pure ())

namespace Placed

variable {port : Nat} {ip : Bytes} {client : Held Handle} {run : Option SessionRun}

theorem shut_returned {c : Conn} (closed : c.session.sockOpen = false) :
    Shut (some (.returned c)) := by
  rintro r same
  cases same
  exact closed

theorem operation {op : ImapOp} {next : op.Res → ImapProg Unit}
    (placed : Placed port ip run (.step op next)) (other : op ≠ .runSession) (r : op.Res) :
    Placed port ip run (next r) := by
  cases placed with
  | started =>
      by_cases secure : port = 993
      · simp only [secure, if_true]
        exact .handshaking
      · simp only [secure, if_false]
        exact .waiting
  | handshaking =>
      cases r with
      | false => exact .refused
      | true => exact .waiting
  | waiting | running => exact absurd rfl other
  | refused => exact .closed (by simp [Shut])
  | ended closed => exact .closed (shut_returned closed)
  | closed shut => exact .countedOff shut
  | countedOff shut => exact .done shut

theorem operation_holds {op : ImapOp} {next : op.Res → ImapProg Unit}
    (placed : Placed port ip run (.step op next)) (other : op ≠ .runSession)
    (open_ : op ≠ .closeSocket) (r : op.Res) :
    (⟨client, run, next r⟩ : SessionThread Handle).holds = holds ⟨client, run, .step op next⟩ := by
  cases placed with
  | started => by_cases secure : port = 993 <;> simp [holds, behindClose, secure]
  | handshaking => cases r <;> rfl
  | waiting | running => exact absurd rfl other
  | refused | ended => exact absurd rfl open_
  | @closed run | @countedOff run => cases run <;> rfl

theorem close_holds {next : Unit → ImapProg Unit}
    (placed : Placed port ip run (.step .closeSocket next)) :
    (⟨client, run, next ()⟩ : SessionThread Handle).holds = false ∧
      (⟨client, run, .step .closeSocket next⟩ : SessionThread Handle).holds = !run.isSome := by
  cases placed with
  | refused => exact ⟨rfl, rfl⟩
  | ended closed => exact ⟨closed, closed⟩

theorem kept {run : SessionRun} {next : Unit → ImapProg Unit}
    (placed : Placed port ip (some run) (.step .runSession next)) : run.Kept := by
  cases placed with
  | running kept => exact kept

theorem session {next : Unit → ImapProg Unit} (placed : Placed port ip run (.step .runSession next))
    {later : SessionRun} (kept : later.Kept) :
    Placed port ip (some later) (.step .runSession next) := by
  cases placed with
  | waiting | running => exact .running kept

theorem returned {c : Conn} {next : Unit → ImapProg Unit}
    (placed : Placed port ip (some (.returned c)) (.step .runSession next)) :
    Placed port ip (some (.returned c)) (next ()) := by
  cases placed with
  | running kept => exact .ended (kept.returned c rfl)

end Placed

end SessionThread

/-! ## What a step does to the sockets -/

/-- The state is one between the steps of a run. -/
structure ThreadSound (port : Nat) (table : HandleTable Handle) (th : SessionThread Handle) :
    Prop where
  placed : ∃ ip, SessionThread.Placed port ip th.run th.rest
  bound : table.Bound th.client
  gone : th.holds = false → table.Gone th.client.holder

structure SocketsSound (port : Nat) (s : ImapSockets Handle) : Prop where
  known : s.table.Known
  client : ∀ c, s.client = some c → s.table.Bound c
  threads : ∀ th ∈ s.threads, ThreadSound port s.table th

section Sound

variable {port : Nat} {s t : ImapSockets Handle}

theorem ThreadSound.later {table later : HandleTable Handle} {th : SessionThread Handle}
    (sound : ThreadSound port table th) (step : table.Later later) : ThreadSound port later th :=
  ⟨sound.placed, sound.bound.later step, fun closed => (sound.gone closed).later step⟩

theorem SocketsSound.change {before after : List (SessionThread Handle)}
    {th th' : SessionThread Handle} (sound : SocketsSound port s) (known : t.table.Known)
    (step : s.table.Later t.table) (client : t.client = s.client)
    (threads : s.threads = before ++ th :: after) (moved : t.threads = before ++ th' :: after)
    (mine : ThreadSound port t.table th') : SocketsSound port t := by
  refine ⟨known, ?_, ?_⟩
  · intro c held
    exact (sound.client c (client ▸ held)).later step
  · have kept : ∀ other ∈ before ++ th :: after, ThreadSound port t.table other := by
      intro other member
      exact (sound.threads other (threads ▸ member)).later step
    rw [moved]
    exact forall_moved kept mine

end Sound

/-- Those who have not closed their sockets. -/
def ImapSockets.holders (s : ImapSockets Handle) : List (Held Handle) :=
  s.client.toList ++ s.threads.filterMap SessionThread.held

/-- The kinds of steps. -/
inductive Touches [DecidableEq Handle] (port : Nat) (x : SocketStep Handle) : Prop
  | nothing : x.closes = none → x.after.client = x.before.client →
      x.after.threads = x.before.threads → x.after.table = x.before.table → Touches port x
  | accepts (handle : Handle) : x.closes = none → x.before.table.owner handle = none →
      x.after.client = some ⟨x.before.table.given, handle⟩ →
      x.after.threads = x.before.threads → x.after.table = x.before.table.give handle →
      Touches port x
  | refuses (c : Held Handle) : x.closes = some c → x.ofThread = false → x.closesAgain = false →
      x.before.client = some c → x.after.client = none →
      x.after.threads = x.before.threads → x.after.table = x.before.table.close c.handle →
      Touches port x
  | starts (c : Held Handle) (ip : Bytes) : x.closes = none →
      x.before.client = some c → x.after.client = none →
      x.after.threads = x.before.threads ++ [⟨c, none, sessionThread port ip⟩] →
      x.after.table = x.before.table → Touches port x
  | moves {before after : List (SessionThread Handle)} {th th' : SessionThread Handle} :
      x.closes = none → x.after.client = x.before.client →
      x.before.threads = before ++ th :: after → x.after.threads = before ++ th' :: after →
      th'.client = th.client → (∃ ip, SessionThread.Placed port ip th'.run th'.rest) →
      th'.holds = th.holds → x.after.table = x.before.table → Touches port x
  | shuts {before after : List (SessionThread Handle)} {th th' : SessionThread Handle} :
      x.closes = some th.client → x.closesAgain = !th.holds →
      x.after.client = x.before.client →
      x.before.threads = before ++ th :: after → x.after.threads = before ++ th' :: after →
      th'.client = th.client → (∃ ip, SessionThread.Placed port ip th'.run th'.rest) →
      th'.holds = false → x.after.table = x.before.table.close th.client.handle → Touches port x

section Steps

variable [DecidableEq Handle] {port : Nat} {globalMaxConnections : Int} {domain : Bytes}
  {s t : ImapSockets Handle} {l : SocketLabel Handle} {x : SocketStep Handle}

theorem loop_touches {now : Int} {op : ImapOp} {r : op.Res} {shared : Shared} {rest : ImapProg Unit}
    {client : Option (Held Handle)} {table : HandleTable Handle}
    (does : op.Sockets r (s.client, s.table) (client, table)) :
    Touches port ⟨.loop now op, s,
      ⟨shared, now, rest, client, s.threads ++ ImapSockets.started port op s.client, table⟩⟩ := by
  cases op with
  | accept =>
      cases r with
      | none =>
          cases does
          exact .nothing rfl rfl (List.append_nil _) rfl
      | some address =>
          obtain ⟨handle, free, same⟩ := does
          cases same
          exact .accepts handle rfl free rfl (List.append_nil _) rfl
  | closeSocket =>
      obtain ⟨c, held, same⟩ := does
      cases same
      exact .refuses c held rfl rfl held rfl (List.append_nil _) rfl
  | spawn ip =>
      obtain ⟨held, same⟩ := does
      obtain ⟨c, client⟩ : ∃ c, s.client = some c := Option.isSome_iff_exists.mp held
      cases same
      exact .starts c ip rfl client rfl (by simp only [ImapSockets.started, client]) rfl
  | _ =>
      cases does
      exact .nothing rfl rfl (List.append_nil _) rfl

section Threads

variable {before after : List (SessionThread Handle)} {c : Held Handle} {ip : Bytes}

theorem operation_touches {now : Int} {op : ImapOp} {next : op.Res → ImapProg Unit} {r : op.Res}
    {run : Option SessionRun} {shared : Shared}
    (threads : s.threads = before ++ ⟨c, run, .step op next⟩ :: after)
    (other : op ≠ .runSession) (placed : SessionThread.Placed port ip run (.step op next)) :
    Touches port ⟨.thread now ⟨c, run, .step op next⟩ op, s,
      ⟨shared, now, s.loop, s.client, before ++ ⟨c, run, next r⟩ :: after,
        if op = .closeSocket then s.table.close c.handle else s.table⟩⟩ := by
  have later := placed.operation other r
  by_cases closing : op = .closeSocket
  · subst closing
    obtain ⟨closed, before_⟩ := @SessionThread.Placed.close_holds _ _ _ c _ _ placed
    exact .shuts rfl (by rw [before_, Bool.not_not]; rfl) rfl threads rfl rfl ⟨ip, later⟩ closed
      (by simp)
  · have quiet : ∀ v, SocketStep.closes ⟨.thread now ⟨c, run, .step op next⟩ op, s, v⟩ = none := by
      intro v
      cases op with
      | closeSocket => exact absurd rfl closing
      | _ => rfl
    exact .moves (quiet _) rfl threads rfl rfl ⟨ip, later⟩
      (placed.operation_holds other closing r) (by simp [closing])

theorem session_touches {run : SessionRun} {next : Unit → ImapProg Unit}
    (threads : s.threads = before ++ ⟨c, some run, .step .runSession next⟩ :: after)
    (placed : SessionThread.Placed port ip (some run) (.step .runSession next)) :
    Touches port ⟨.session ⟨c, some run, .step .runSession next⟩, s, { s with
      threads := before ++ ⟨c, some run.next, .step .runSession next⟩ :: after
      table := if run.closing then s.table.close c.handle else s.table }⟩ := by
  have kept := placed.kept
  have later := placed.session kept.next
  cases closing : run.closing with
  | false =>
      exact .moves (by simp [SocketStep.closes, closing]) rfl threads rfl rfl ⟨ip, later⟩
        (kept.not_closing closing) (by simp)
  | true =>
      have turn := kept.closing
      rw [closing] at turn
      obtain ⟨opened, closed⟩ : run.conn.session.sockOpen = true ∧
          run.next.conn.session.sockOpen = false := by simpa using turn.symm
      exact .shuts (by simp [SocketStep.closes, closing])
        (by simp [SocketStep.closesAgain, SessionThread.holds, opened]) rfl threads rfl rfl
        ⟨ip, later⟩ closed (by simp)

end Threads

theorem step_touches (sound : SocketsSound port s)
    (step : ImapSockets.Step port globalMaxConnections domain s l t) : Touches port ⟨l, s, t⟩ := by
  -- The thread that moves is placed as its program says.
  have here : ∀ {before th after}, s.threads = before ++ th :: after → ∀ {p}, th.rest = p →
      ∃ ip, SessionThread.Placed port ip th.run p := by
    intro before th after threads p at_
    subst at_
    exact (sound.threads th (by simp [threads])).placed
  cases step with
  | turn => exact .nothing rfl rfl rfl rfl
  | loop _ _ _ does => exact loop_touches does
  | @thread now before th after op next r _ _ threads at_ other =>
      obtain ⟨ip, placed⟩ := here threads at_
      obtain ⟨c, run, rest⟩ := th
      obtain rfl : rest = .step op next := at_
      exact operation_touches threads other placed
  | @begins before th after next ssl env threads at_ fresh =>
      obtain ⟨ip, placed⟩ := here threads at_
      obtain ⟨c, run, rest⟩ := th
      obtain rfl : rest = .step .runSession next := at_
      obtain rfl : run = none := fresh
      have kept := @SessionRun.start_kept domain ssl env
      exact .moves rfl rfl threads rfl rfl ⟨ip, placed.session kept⟩ (kept.looping _ rfl) rfl
  | @session before th after next run threads at_ running =>
      obtain ⟨ip, placed⟩ := here threads at_
      obtain ⟨c, now, rest⟩ := th
      obtain rfl : rest = .step .runSession next := at_
      obtain rfl : now = some run := running
      exact session_touches threads placed
  | @returned now before th after next c _ threads at_ ended =>
      obtain ⟨ip, placed⟩ := here threads at_
      obtain ⟨client, run, rest⟩ := th
      obtain rfl : rest = .step .runSession next := at_
      obtain rfl : run = some (.returned c) := ended
      exact .moves rfl rfl threads rfl rfl ⟨ip, placed.returned⟩ rfl rfl

theorem touches_sound (sound : SocketsSound port x.before) (touches : Touches port x) :
    SocketsSound port x.after := by
  cases touches with
  | nothing _ client threads table =>
      refine ⟨?_, ?_, ?_⟩
      · rw [table]
        exact sound.known
      · rw [client, table]
        exact sound.client
      · rw [threads, table]
        exact sound.threads
  | accepts handle _ _ client threads table =>
      have step := HandleTable.give_later x.before.table handle
      refine ⟨?_, ?_, ?_⟩
      · rw [table]
        exact sound.known.give
      · intro c held
        rw [client] at held
        cases held
        rw [table]
        exact sound.known.give_bound
      · rw [threads, table]
        exact fun th member => (sound.threads th member).later step
  | refuses c _ _ _ _ client threads table =>
      have step := HandleTable.close_later x.before.table c.handle
      refine ⟨?_, ?_, ?_⟩
      · rw [table]
        exact sound.known.close
      · intro c held
        rw [client] at held
        cases held
      · rw [threads, table]
        exact fun th member => (sound.threads th member).later step
  | starts c ip _ held client threads table =>
      refine ⟨?_, ?_, ?_⟩
      · rw [table]
        exact sound.known
      · intro c held
        rw [client] at held
        cases held
      · rw [threads, table]
        exact forall_concat sound.threads
          ⟨⟨ip, .started⟩, sound.client c held, fun closed => by cases closed⟩
  | @moves before after th th' _ client threads moved same placed holds table =>
      have mine := sound.threads th (by simp [threads])
      refine sound.change (by rw [table]; exact sound.known) (by rw [table]; exact .refl _) client
        threads moved ⟨placed, ?_, ?_⟩
      · rw [same, table]
        exact mine.bound
      · rw [same, table, holds]
        exact mine.gone
  | @shuts before after th th' _ _ client threads moved same placed holds table =>
      have mine := sound.threads th (by simp [threads])
      refine sound.change (by rw [table]; exact sound.known.close)
        (by rw [table]; exact HandleTable.close_later _ _) client threads moved ⟨placed, ?_, ?_⟩
      · rw [same, table]
        exact mine.bound.later (HandleTable.close_later _ _)
      · rw [same, table]
        exact fun _ => mine.bound.close_gone

omit [DecidableEq Handle] in
theorem closesAgain_closes (again : x.closesAgain = true) :
    x.closes ≠ none ∧ x.ofThread = true := by
  obtain ⟨l, s, t⟩ := x
  rcases l with _ | _ | ⟨_, th, _ | _ | _ | _ | _ | _ | _ | _ | _ | _⟩ | _ | _ | _
  case thread.closeSocket => exact ⟨by simp [SocketStep.closes], rfl⟩
  all_goals cases again

/-- As long as no thread closes its socket again, everyone who has not closed a socket
    owns it. -/
theorem touches_backs (sound : SocketsSound port x.before)
    (backs : x.before.table.Backs x.before.holders) (touches : Touches port x)
    (once : x.closesAgain = false) : x.after.table.Backs x.after.holders := by
  unfold ImapSockets.holders at backs ⊢
  cases touches with
  | nothing _ client threads table =>
      rw [client, threads, table]
      exact backs
  | accepts handle _ free client threads table =>
      rw [client, threads, table]
      exact (backs.sublist (List.sublist_append_right _ _)).give sound.known free
  | refuses c _ _ _ held client threads table =>
      rw [client, threads, table]
      rw [held] at backs
      exact backs.close
  | starts c ip _ held client threads table =>
      rw [client, threads, table, List.filterMap_append]
      rw [held] at backs
      exact backs.perm List.perm_append_comm
  | @moves before after th th' _ client threads moved same _ holds table =>
      rw [threads] at backs
      have held : th'.held = th.held := by simp only [SessionThread.held, same, holds]
      rw [client, moved, table, List.filterMap_append, List.filterMap_cons, held,
        ← List.filterMap_cons, ← List.filterMap_append]
      exact backs
  | @shuts before after th th' _ again client threads moved same _ holds table =>
      have open_ : th.holds = true := by simpa [once] using again.symm
      have own : th.held = some th.client := by simp [SessionThread.held, open_]
      have gone : th'.held = none := by simp [SessionThread.held, holds]
      rw [threads, List.filterMap_append, List.filterMap_cons, own] at backs
      rw [client, moved, table, List.filterMap_append, List.filterMap_cons, gone]
      rw [← List.append_assoc] at backs ⊢
      exact (backs.perm List.perm_middle).close

theorem touches_own (backs : x.before.table.Backs x.before.holders) (touches : Touches port x)
    (once : x.closesAgain = false) : x.ClosesOwn := by
  have own : ∀ c, x.closes = some c → x.before.table.owner c.handle = some c.holder := by
    intro c closes
    refine backs.owns c ?_
    unfold ImapSockets.holders
    cases touches with
    | nothing quiet | accepts _ quiet | starts _ _ quiet | moves quiet =>
        rw [quiet] at closes
        cases closes
    | refuses c' closed _ _ held =>
        obtain rfl := Option.some.inj (closed.symm.trans closes)
        simp [held]
    | @shuts before after th th' closed again _ threads =>
        obtain rfl := Option.some.inj (closed.symm.trans closes)
        have open_ : th.holds = true := by simpa [once] using again.symm
        refine List.mem_append_right _ (List.mem_filterMap.mpr ⟨th, by simp [threads], ?_⟩)
        simp [SessionThread.held, open_]
  refine ⟨fun c closes _ => own c closes, ?_⟩
  intro c other closes owned
  exact Option.some.inj (owned.symm.trans (own c closes))

theorem touches_again (sound : SocketsSound port x.before) (touches : Touches port x)
    (again : x.closesAgain = true) : ¬ x.ClosesOwn := by
  obtain ⟨closes, ofThread⟩ := closesAgain_closes again
  intro own
  cases touches with
  | nothing quiet | accepts _ quiet | starts _ _ quiet | moves quiet => exact closes quiet
  | refuses _ _ loop =>
      rw [loop] at ofThread
      cases ofThread
  | @shuts before after th th' closed once _ threads =>
      have shut : th.holds = false := by simpa [again] using once
      have gone := (sound.threads th (by simp [threads])).gone shut
      exact gone.without _ (own.own _ closed ofThread)

end Steps

section Runs

variable [DecidableEq Handle] {port : Nat} {globalMaxConnections : Int} {domain : Bytes}
  {limiter : RateLimiter} {clock : Int} {past : List (SocketStep Handle)} {s : ImapSockets Handle}

omit [DecidableEq Handle] in
theorem start_sound : SocketsSound port (ImapSockets.start limiter clock : ImapSockets Handle) where
  known := HandleTable.known_empty
  client := by simp [ImapSockets.start]
  threads := by simp [ImapSockets.start]

theorem trace_sound
    (trace : Trace (ImapSockets.Step port globalMaxConnections domain) (.start limiter clock) past s) :
    SocketsSound port s ∧ ∀ x ∈ past, SocketsSound port x.before ∧ Touches port x := by
  obtain ⟨sound, along⟩ := @Trace.always _ _ _ _ _ _ (fun _ s => SocketsSound port s) trace
    start_sound fun _ _ _ _ sound step => touches_sound sound (step_touches sound step)
  refine ⟨sound, along_forall.mp (along.mono ?_)⟩
  rintro _ ⟨l, s, t⟩ ⟨step, sound, -⟩
  exact ⟨sound, step_touches sound step⟩

/-- The threads close the sockets of their own connections, and no one that of another,
    as long as no thread comes to close its handle behind the return of
    `ImapSession::run`. A thread that does finds it closed, or in other hands. -/
theorem sockets_own_iff
    (trace : Trace (ImapSockets.Step port globalMaxConnections domain) (.start limiter clock) past s) :
    (∀ x ∈ past, x.ClosesOwn) ↔ ∀ x ∈ past, x.closesAgain = false := by
  have touches := (trace_sound trace).2
  constructor
  · intro own x member
    obtain ⟨sound, touched⟩ := touches x member
    cases again : x.closesAgain with
    | false => rfl
    | true => exact absurd (own x member) (touches_again sound touched again)
  · intro once
    -- Every step finds the sockets with those who have not closed them.
    obtain ⟨-, along⟩ := @Trace.invariant _ _ _ _ _ _
      (fun _ s => SocketsSound port s ∧ s.table.Backs s.holders)
      (fun _ x => SocketStep.closesAgain x = false) trace (along_forall.mpr once)
      ⟨start_sound, HandleTable.Backs.nil⟩
      fun _ _ _ _ known step quiet =>
        have touched := step_touches known.1 step
        ⟨touches_sound known.1 touched, touches_backs known.1 known.2 touched quiet⟩
    refine along_forall.mp (along.mono ?_)
    rintro _ ⟨l, s, t⟩ ⟨⟨step, quiet⟩, ⟨sound, backs⟩, -⟩
    exact touches_own backs (step_touches sound step) quiet

theorem may_accept
    (run : Trace (ImapSockets.Step port globalMaxConnections domain) (.start limiter clock) past s)
    (idle : s.loop = .pure ()) (room : s.shared.activeConnections < globalMaxConnections)
    {handle : Handle} (free : s.table.owner handle = none) (ip : Bytes) :
    ∃ past' : List (SocketStep Handle),
      Trace (ImapSockets.Step port globalMaxConnections domain) (.start limiter clock) past'
        { s with
          loop := .step (.allowConnection ip) fun allowed =>
            if !allowed then .step .closeSocket fun _ => .pure ()
            else .step (.spawn ip) fun _ => .pure ()
          client := some ⟨s.table.given, handle⟩
          table := s.table.give handle } ∧
      ∀ x ∈ past', x ∈ past ∨ x.closes = none := by
  obtain ⟨shared, now, loop, client, threads, table⟩ := s
  subst idle
  have turn := run.snoc (.turn rfl)
  have load := turn.snoc (@ImapSockets.Step.loop _ _ _ _ _ _ now .loadActive _
    shared.activeConnections shared client table (le_refl now) rfl ⟨rfl, rfl⟩ rfl)
  have accept := load.snoc (@ImapSockets.Step.loop _ _ _ _ _ _ now .accept _ (some (some ip))
    shared _ _ (le_refl now) (if_neg (not_le.mpr room)) rfl ⟨handle, free, rfl⟩)
  simp only [ImapSockets.started, List.append_nil] at accept
  refine ⟨_, accept, ?_⟩
  intro x member
  simp only [List.mem_append, List.mem_singleton] at member
  rcases member with ((earlier | rfl) | rfl) | rfl
  · exact .inl earlier
  all_goals exact .inr rfl

/-- Whenever a thread comes to close its handle behind the return of `ImapSession::run`,
    another connection may have it. -/
theorem may_close_another {before after : List (SessionThread Handle)} {th : SessionThread Handle}
    {next : Unit → ImapProg Unit}
    (run : Trace (ImapSockets.Step port globalMaxConnections domain) (.start limiter clock) past s)
    (idle : s.loop = .pure ()) (room : s.shared.activeConnections < globalMaxConnections)
    (threads : s.threads = before ++ th :: after) (at_ : th.rest = .step .closeSocket next)
    (ended : th.run.isSome = true) : ∃ (past' : List (SocketStep Handle)) (t : ImapSockets Handle),
      Trace (ImapSockets.Step port globalMaxConnections domain) (.start limiter clock) past' t ∧
      ∃ x ∈ past', x.ofThread = true ∧ x.closes = some th.client ∧
        ∃ other ≠ th.client.holder, x.before.table.owner th.client.handle = some other := by
  have mine := (trace_sound run).1.threads th (by simp [threads])
  cases owned : s.table.owner th.client.handle with
  | none =>
      obtain ⟨past', accepted, -⟩ := may_accept run idle room owned []
      have closed := accepted.snoc (@ImapSockets.Step.thread _ _ _ _ _ _ s.clock before th after
        .closeSocket next () s.shared (le_refl _) threads at_ (by simp) rfl)
      refine ⟨_, _, closed, _, List.mem_concat_self, rfl, rfl, s.table.given, ?_, ?_⟩
      · exact mine.bound.given.ne'
      · exact Function.update_self ..
  | some other =>
      obtain ⟨ip, placed⟩ := mine.placed
      obtain ⟨client, at_run, rest⟩ := th
      obtain rfl : rest = .step .closeSocket next := at_
      have closed := run.snoc (@ImapSockets.Step.thread _ _ _ _ _ _ s.clock before _ after
        .closeSocket next () s.shared (le_refl _) threads rfl (by simp) rfl)
      refine ⟨_, _, closed, _, List.mem_concat_self, rfl, rfl, other, ?_, owned⟩
      rintro rfl
      have shut := (@SessionThread.Placed.close_holds _ _ _ client _ _ placed).2
      rw [ended] at shut
      exact (mine.gone shut).without _ owned

end Runs

section LoggedOut

abbrev MailStep : ImapSockets Nat → SocketLabel Nat → ImapSockets Nat → Prop :=
  ImapSockets.Step 143 1000 (ascii "example.com")

/-- A session whose client logs out. -/
def loggingOut : SessionRun :=
  .start (ascii "example.com") none { input := Smtp.arriving (ascii "a LOGOUT\n") }

theorem client_logs_out : ∃ (past : List (SocketStep Nat)) (s : ImapSockets Nat),
    Trace MailStep (.start ⟨fun _ => none⟩ 0) past s ∧ (∀ x ∈ past, x.closesAgain = false) ∧
      (∃ x ∈ past, x.closes = some ⟨0, 5⟩) ∧ s.loop = .pure () ∧
      s.shared.activeConnections = 1 ∧ s.threads = [⟨⟨0, 5⟩, some loggingOut.next,
        .step .runSession fun _ => endSession (ascii "192.0.2.1")⟩] := by
  obtain ⟨past, accept, quiet⟩ := @may_accept Nat _ 143 1000 (ascii "example.com")
    ⟨fun _ => none⟩ 0 [] _ .nil rfl (by decide) 5 rfl (ascii "192.0.2.1")
  have allow := accept.snoc (@ImapSockets.Step.loop _ _ _ _ _ _ 0 (.allowConnection _) _ true
    ⟨(RateLimiter.allowConnection 0 (ascii "192.0.2.1") ⟨fun _ => none⟩).2, 0⟩ _ _ (le_refl 0)
    rfl ⟨rfl, rfl⟩ rfl)
  have spawn := allow.snoc (@ImapSockets.Step.loop _ _ _ _ _ _ 0 (.spawn _) _ () _ _ _
    (le_refl 0) rfl rfl ⟨rfl, rfl⟩)
  have increment := spawn.snoc (@ImapSockets.Step.thread _ _ _ _ _ _ 0 [] _ [] .increment _ () _
    (le_refl 0) rfl rfl (by simp) rfl)
  have begins := increment.snoc (@ImapSockets.Step.begins _ _ _ _ _ _ [] _ [] _ none
    { input := Smtp.arriving (ascii "a LOGOUT\n") } rfl rfl rfl rfl)
  have session := begins.snoc (@ImapSockets.Step.session _ _ _ _ _ _ [] _ [] _ loggingOut
    rfl rfl rfl)
  have closing : loggingOut.closing = true := by decide
  refine ⟨_, _, session, ?_, ?_, rfl, rfl, rfl⟩
  · intro x member
    simp only [List.mem_append, List.mem_singleton] at member
    rcases member with ((((earlier | rfl) | rfl) | rfl) | rfl) | rfl
    · cases again : x.closesAgain with
      | false => rfl
      | true =>
          rcases quiet x earlier with none_ | none_
          · cases none_
          · exact absurd none_ (closesAgain_closes again).1
    all_goals rfl
  · refine ⟨_, List.mem_concat_self, ?_⟩
    change (if loggingOut.closing then _ else none) = _
    rw [closing]
    rfl

/-- The session has closed its socket, and no thread has closed another's. -/
theorem sockets_own_logout : ∃ (past : List (SocketStep Nat)) (s : ImapSockets Nat),
    Trace MailStep (.start ⟨fun _ => none⟩ 0) past s ∧
      (∃ x ∈ past, x.closes = some ⟨0, 5⟩) ∧ ∀ x ∈ past, x.ClosesOwn := by
  obtain ⟨past, s, run, once, closed, -⟩ := client_logs_out
  exact ⟨past, s, run, closed, (sockets_own_iff run).mpr once⟩

/-- The thread comes to close its handle behind the session, when another may have it. -/
theorem socket_of_another_closed : ∃ (past : List (SocketStep Nat)) (s : ImapSockets Nat),
    Trace MailStep (.start ⟨fun _ => none⟩ 0) past s ∧ ∃ x ∈ past, x.ofThread = true ∧
      x.closes = some ⟨0, 5⟩ ∧ ∃ other ≠ 0, x.before.table.owner 5 = some other := by
  obtain ⟨past, s, run, -, -, idle, active, threads⟩ := client_logs_out
  have left := run.snoc (@ImapSockets.Step.session _ _ _ _ _ _ [] _ [] _ loggingOut.next
    threads rfl rfl)
  have returned := left.snoc (@ImapSockets.Step.returned _ _ _ _ _ _ _ [] _ [] _
    loggingOut.next.next.conn (le_refl _) rfl rfl rfl)
  exact may_close_another returned idle (by rw [active]; decide) rfl rfl rfl

end LoggedOut

end EmailServer.Imap
