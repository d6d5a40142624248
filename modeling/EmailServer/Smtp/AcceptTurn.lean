import EmailServer.Smtp.SmtpServer

/-! # A turn of the accept loop

Whatever ledger is kept of the loop, a turn is followed once: what stands in the ledger at
each place of the turn is enough to know that the turn leaves it as it was.
-/

namespace EmailServer.Smtp

open EmailServer.Core

/-- The operations before a connection is acquired. -/
inductive ServerOp.Looks : ServerOp → Prop
  | circuitBreaker : Looks .circuitBreaker
  | loadActive : Looks (.conn .loadActive)
  | loadGlobalMax : Looks (.conn .loadGlobalMax)
  | accept : Looks .accept

/-- What stands in a ledger at each place of a turn. -/
structure TurnPlaces {γ : Type} (L : Ledger ServerOp ServerOp.Res γ) where
  free : γ
  acquired : Bytes → γ
  /-- The rate limiter has let the connection in. -/
  allowed : Bytes → γ
  /-- It has not, and the connection is released. -/
  released : Bytes → γ
  spawned : γ
  reaped : Nat → γ
  looks : ∀ op : ServerOp, op.Looks → L.due free op ∧ ∀ r, L.book free op r = free
  acquires : ∀ ip, L.Balances (fun ok g => g = if ok then acquired ip else free)
    (conn (ConnectionManager.tryAcquireConnection ip)) free
  asks : ∀ ip, L.due (acquired ip) (.allowConnection ip) ∧ ∀ ok,
    L.book (acquired ip) (.allowConnection ip) ok = if ok then allowed ip else acquired ip
  releases : ∀ ip, L.Balances (fun _ g => g = released ip)
    (conn (ConnectionManager.releaseConnection ip)) (acquired ip)
  closes : ∀ g, g = free ∨ (∃ ip, g = released ip) →
    L.due g .closeSocket ∧ L.book g .closeSocket () = free
  spawns : ∀ ip, L.due (allowed ip) (.spawn ip) ∧ L.book (allowed ip) (.spawn ip) () = spawned
  reaps : L.due spawned .reapSessions ∧ ∀ size, L.book spawned .reapSessions size = reaped size
  waits : ∀ size > 1000, L.due (reaped size) .backpressure ∧
    L.book (reaped size) .backpressure () = spawned
  pushes : ∀ g, g = spawned ∨ (∃ size ≤ 1000, g = reaped size) →
    L.due g .pushSession ∧ L.book g .pushSession () = free

namespace TurnPlaces

variable {γ : Type} {L : Ledger ServerOp ServerOp.Res γ} (places : TurnPlaces L) {g : γ}

theorem look {op : ServerOp} {next : op.Res → ServerProg Unit} (looks : op.Looks)
    (rest : ∀ r, L.Balances (fun _ g => g = places.free) (next r) places.free) :
    L.Balances (fun _ g => g = places.free) (.step op next) places.free := by
  obtain ⟨due, booked⟩ := places.looks op looks
  refine ⟨due, fun r => ?_⟩
  rw [booked r]
  exact rest r

theorem close (refused : g = places.free ∨ ∃ ip, g = places.released ip) :
    L.Balances (fun _ g => g = places.free) (.step .closeSocket fun _ => .pure ()) g :=
  ⟨(places.closes g refused).1, fun _ => (places.closes g refused).2⟩

theorem push (started : g = places.spawned ∨ ∃ size ≤ 1000, g = places.reaped size) :
    L.Balances (fun _ g => g = places.free) (.step .pushSession fun _ => .pure ()) g :=
  ⟨(places.pushes g started).1, fun _ => (places.pushes g started).2⟩

theorem acceptTurn_balances :
    L.Balances (fun _ g => g = places.free) acceptTurn places.free := by
  apply places.look .circuitBreaker
  intro tripped
  cases tripped with
  | true => exact rfl
  | false =>
  apply places.look .loadActive
  intro currentConnections
  apply places.look .loadGlobalMax
  intro maxConnections
  by_cases full : currentConnections ≥ maxConnections
  · simp only [full, if_true]
    exact rfl
  simp only [full, if_false]
  apply places.look .accept
  intro accepted
  cases accepted with
  | none => exact rfl
  | some ip =>
      apply (places.acquires ip).bind
      rintro acquired g rfl
      cases acquired with
      | false => exact places.close (.inl rfl)
      | true =>
          obtain ⟨due, asked⟩ := places.asks ip
          refine ⟨due, fun allowed => ?_⟩
          simp only [if_true] at asked ⊢
          rw [asked allowed]
          cases allowed with
          | false =>
              apply (places.releases ip).bind
              rintro _ g rfl
              exact places.close (.inr ⟨ip, rfl⟩)
          | true =>
              obtain ⟨due, spawned⟩ := places.spawns ip
              refine ⟨due, fun _ => ?_⟩
              simp only [if_true]
              rw [spawned]
              obtain ⟨due, reaped⟩ := places.reaps
              refine ⟨due, fun size => ?_⟩
              rw [reaped size]
              by_cases many : size > 1000
              · obtain ⟨due, waited⟩ := places.waits size many
                simp only [many, if_true]
                refine ⟨due, fun _ => ?_⟩
                rw [waited]
                exact places.push (.inl rfl)
              · simp only [many, if_false]
                exact places.push (.inr ⟨size, Nat.le_of_not_lt many, rfl⟩)

end TurnPlaces

end EmailServer.Smtp
