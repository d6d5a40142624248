import EmailServer.Core.MainProgram

/-! # The end of the program

After the signal `main` waits in its joins for threads that it does not wake. Left to its
own threads the program ends exactly if no such thread is waiting for a client.
-/

namespace EmailServer.Main

open Relation

/-! ## A server comes to rest -/

/-- The thread of a stopped server ends, unless it waits for a client. -/
theorem acceptor_ends {k : ServerName} {v : Server} (stopped : v.running = false)
    (shut : ¬ (v.acceptor = .accepting ∧ v.listening = true)) (idle : v.acceptor ≠ .handling) :
    ∃ w, ReflTransGen (Server.Own k) v w ∧ w.acceptor = .ended ∧ w.sessions = v.sessions := by
  have from_top : ∀ u : Server, u.acceptor = .top → u.running = false →
      ReflTransGen (Server.Own k) u { u with listening := false, acceptor := .ended } := by
    intro u top running
    exact .single (.leaves top running)
  cases place : v.acceptor with
  | starting =>
    refine ⟨_, .head (.listens place) (from_top _ rfl stopped), rfl, rfl⟩
  | top => exact ⟨_, from_top _ place stopped, rfl, rfl⟩
  | accepting =>
    have closed : v.listening = false := by
      cases open_ : v.listening with
      | false => rfl
      | true => exact absurd ⟨place, open_⟩ shut
    exact ⟨_, .head (.rejected place closed) (from_top _ rfl stopped), rfl, rfl⟩
  | handling => exact absurd place idle
  | ended => exact ⟨v, .refl, place, rfl⟩

theorem sessions_end {k : ServerName} (sessions : List Bool) (gone : ∀ b ∈ sessions, b = true)
    (v : Server) (here : v.sessions = sessions) :
    ReflTransGen (Server.Own k) v { v with sessions := [] } := by
  induction sessions generalizing v with
  | nil =>
    have same : { v with sessions := [] } = v := by rw [← here]
    rw [same]
  | cons b rest ih =>
    have ended : b = true := gone b (by simp)
    have step : Server.Own k v { v with sessions := [] ++ rest } := by
      apply Server.Own.hungUp
      simpa [ended] using here
    exact .head step (ih (fun c member => gone c (by simp [member])) _ rfl)

theorem own_lift {s : Process} {k : ServerName} {w : Server}
    (run : ReflTransGen (Server.Own k) (s.server k) w) :
    ReflTransGen ThreadStep s (s.set k w) := by
  have lifted : ReflTransGen ThreadStep (s.set k (s.server k)) (s.set k w) := by
    apply run.lift (s.set k)
    intro u v own
    have step : ThreadStep (s.set k u) ((s.set k u).set k v) := by
      apply ThreadStep.own
      simpa using own
    simpa [Function.onFun, Process.set] using step
  simpa [Process.set] using lifted

/-! ## The acts of `main` can be performed -/

/-- A server that keeps no client waiting, as far as `NoneAwaited` asks it of this server. -/
structure Server.Free (k : ServerName) (v : Server) : Prop where
  imap : k = .imap → false ∉ v.sessions
  handling : v.acceptor ≠ .handling
  listener : k = .metrics → ¬ (v.acceptor = .accepting ∧ v.listening = true)

theorem free_set {s : Process} {k : ServerName} {v : Server}
    (free : ∀ j, (s.server j).Free j) (here : v.Free k) : ∀ j, ((s.set k v).server j).Free j := by
  intro j
  by_cases same : j = k
  · subst same
    simpa using here
  · simpa [same] using free j

theorem perform_free {s t : Process} {a : Act} (performed : a.perform s = some t)
    (free : ∀ k, (s.server k).Free k) : ∀ k, (t.server k).Free k := by
  cases a with
  | start k =>
    simp only [Act.perform, Option.some.injEq] at performed
    subst performed
    apply free_set free
    exact ⟨(free k).imap, by simp, by simp⟩
  | clearRunning k =>
    simp only [Act.perform, Option.some.injEq] at performed
    subst performed
    apply free_set free
    exact ⟨(free k).imap, (free k).handling, (free k).listener⟩
  | closeListener k =>
    simp only [Act.perform, Option.some.injEq] at performed
    subst performed
    apply free_set free
    exact ⟨(free k).imap, (free k).handling, by simp⟩
  | closeClients k =>
    simp only [Act.perform, Option.some.injEq] at performed
    subst performed
    apply free_set free
    exact ⟨by simp, (free k).handling, (free k).listener⟩
  | stopSandbox =>
    simp only [Act.perform, Option.some.injEq] at performed
    subst performed
    exact free
  | joinAcceptor _ | joinSessions _ =>
    simp only [Act.perform, Option.ite_none_right_eq_some, Option.some.injEq] at performed
    obtain ⟨-, rfl⟩ := performed
    exact free
  | awaitSignal | joinSandbox =>
    simp only [Act.perform, Option.ite_none_left_eq_some, Option.some.injEq] at performed
    obtain ⟨-, rfl⟩ := performed
    exact free

theorem perform_signalled {s t : Process} {a : Act} (performed : a.perform s = some t)
    (signalled : s.g_running = false) : t.g_running = false := by
  cases start : a.isStart with
  | false => exact (perform_winds performed start).signalled signalled
  | true =>
    cases a with
    | start k =>
      simp only [Act.perform, Option.some.injEq] at performed
      subst performed
      exact signalled
    | _ => simp [Act.isStart] at start

/-- After the signal each act can be performed, once the threads that it waits for have ended
    by themselves. -/
theorem act_passes {s : Process} {a : Act} {rest : List Act} (inv : Inv s)
    (acts : s.main = a :: rest) (signalled : s.g_running = false)
    (free : ∀ k, (s.server k).Free k) :
    ∃ u, ReflTransGen ThreadStep s u ∧ u.main = s.main ∧ u.g_running = false ∧
      (∀ k, (u.server k).Free k) ∧ (a.perform u).isSome = true := by
  obtain ⟨⟨done, split, reached⟩, formed, -⟩ := inv
  rw [acts] at split
  have needs : ∀ b ∈ a.needs, b.Done s := fun b needed => reached b (needs_done split needed)
  cases a with
  | start _ | clearRunning _ | closeListener _ | closeClients _ | stopSandbox =>
    exact ⟨s, .refl, rfl, signalled, free, rfl⟩
  | awaitSignal => exact ⟨s, .refl, rfl, signalled, free, by simp [Act.perform, signalled]⟩
  | joinAcceptor k =>
    have stopped : (s.server k).running = false := needs (.clearRunning k) (by simp [Act.needs])
    have shut : ¬ ((s.server k).acceptor = .accepting ∧ (s.server k).listening = true) := by
      by_cases metrics : k = .metrics
      · exact (free k).listener metrics
      · obtain ⟨-, shut⟩ := needs (.closeListener k) (by simp [Act.needs, metrics])
        exact shut
    obtain ⟨w, run, ended, sessions⟩ := acceptor_ends stopped shut (free k).handling
    refine ⟨s.set k w, own_lift run, rfl, signalled, ?_, by simp [Act.perform, ended]⟩
    apply free_set free
    exact ⟨fun imap => by simpa [sessions] using (free k).imap imap, by simp [ended],
      by simp [ended]⟩
  | joinSessions k =>
    have gone : ∀ b ∈ (s.server k).sessions, b = true := by
      by_cases imap : k = .imap
      · intro b member
        cases b with
        | true => rfl
        | false => exact absurd member ((free k).imap imap)
      · obtain ⟨-, -, gone⟩ := needs (.closeClients k) (by simp [Act.needs, imap])
        exact gone
    have run := sessions_end (k := k) _ gone (s.server k) rfl
    refine ⟨_, own_lift run, rfl, signalled, ?_, by simp [Act.perform]⟩
    apply free_set free
    exact ⟨by simp, (free k).handling, (free k).listener⟩
  | joinSandbox =>
    have stopped : s.sandboxRunning = false := needs .stopSandbox (by simp [Act.needs])
    exact ⟨_, .single (.sandbox stopped), rfl, signalled, free, by simp [Act.perform]⟩

theorem thread_inv {s t : Process} (inv : Inv s) (run : ReflTransGen ThreadStep s t) : Inv t := by
  induction run with
  | refl => exact inv
  | tail _ step inv => exact inv_thread inv step

theorem comes_to_end {s : Process} (inv : Inv s) (signalled : s.g_running = false)
    (free : ∀ k, (s.server k).Free k) : ∃ t, ReflTransGen ThreadStep s t ∧ t.main = [] := by
  cases acts : s.main with
  | nil => exact ⟨s, .refl, acts⟩
  | cons a rest =>
    obtain ⟨u, run, same, still, freed, able⟩ := act_passes inv acts signalled free
    obtain ⟨t, performed⟩ := Option.isSome_iff_exists.mp able
    have step : ThreadStep u { t with main := rest } := .main (same.trans acts) performed
    have free' : ∀ k, (t.server k).Free k := perform_free performed freed
    have still' : t.g_running = false := perform_signalled performed still
    obtain ⟨v, more, ended⟩ := @comes_to_end { t with main := rest }
      (inv_thread (thread_inv inv run) step) still' free'
    exact ⟨v, (run.tail step).trans more, ended⟩
termination_by s.main.length
decreasing_by simp [acts]

/-! ## Nothing else ends it -/

theorem Server.Own.freed {k : ServerName} {v w : Server} (own : Server.Own k v w)
    (free : w.Free k) : v.Free k := by
  cases own with
  | listens starting => exact ⟨free.imap, by simp [starting], by simp [starting]⟩
  | fails starting => exact ⟨free.imap, by simp [starting], by simp [starting]⟩
  | again top running => exact ⟨free.imap, by simp [top], by simp [top]⟩
  | leaves top stopped => exact ⟨free.imap, by simp [top], by simp [top]⟩
  | rejected accepting closed => exact ⟨free.imap, by simp [accepting], by simp [closed]⟩
  | hungUp sessions =>
    refine ⟨fun imap => ?_, free.handling, free.listener⟩
    have none := free.imap imap
    simpa [sessions] using none

/-- Nothing of the program is left when `main` comes to its end. -/
structure Process.Ended (s : Process) : Prop where
  acceptors : ∀ k, (s.server k).acceptor = .ended
  sessions : ∀ k, (s.server k).sessions = []
  listeners : ∀ k, (s.server k).listening = false
  sandbox : s.sandboxWorker = false

theorem Process.Ended.free {s : Process} (ended : s.Ended) : ∀ k, (s.server k).Free k := by
  intro k
  exact ⟨by simp [ended.sessions], by simp [ended.acceptors], by simp [ended.acceptors]⟩

end EmailServer.Main
