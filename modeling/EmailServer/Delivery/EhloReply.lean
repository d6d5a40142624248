import EmailServer.Delivery.Outcome
import EmailServer.Smtp.Steps

/-! # The reply to EHLO

`sendMultilineResponse` puts a dash behind a line where a reply has one behind the
code, and no code at all: the lines of `handleEhlo` are the capabilities themselves.
So the client of this program looks at the first letter of the server's domain.
-/

namespace EmailServer.Delivery

open Smtp

/-- The lines of a reply with code 250: a dash and a text behind the code of each but the
    last, a space and a text behind the last one. -/
def MultilineReply (lines : List Bytes) : Prop :=
  ∃ (texts : List Bytes) (last : Bytes), lines = texts.map (ascii "250-" ++ ·) ++ [ascii "250 " ++ last]

/-- The lines that `sendMultilineResponse` sends. -/
def sentLines : List Bytes → List Bytes
  | [] => []
  | [last] => [last]
  | line :: rest => (line ++ ascii "-") :: sentLines rest

theorem sendMultilineResponse_log (c : Conn) (lines : List Bytes) :
    (c.sendMultilineResponse lines).env.log =
      ((sentLines lines).map Event.reply).reverse ++ c.env.log := by
  induction lines generalizing c with
  | nil => rfl
  | cons line rest ih =>
      cases rest with
      | nil => rfl
      | cons next rest =>
          have later := ih (c.sendLine (line ++ ascii "-"))
          have sent : sentLines (line :: next :: rest) =
              (line ++ ascii "-") :: sentLines (next :: rest) := rfl
          rw [sent, List.map_cons, List.reverse_cons, List.append_assoc]
          exact later

theorem handleEhlo_replies (cfg : Config) (arg : Bytes) (c : Conn) :
    (since c (handleEhlo cfg arg c)).reverse =
      (sentLines (capabilities cfg c.session.tlsActive)).map .reply := by
  have log : (handleEhlo cfg arg c).env.log =
      ((sentLines (capabilities cfg c.session.tlsActive)).map Event.reply).reverse ++ c.env.log :=
    sendMultilineResponse_log _ _
  rw [since_eq log, List.reverse_reverse]

theorem sentLines_capabilities (cfg : Config) (tlsActive : Bool) :
    ∃ rest, sentLines (capabilities cfg tlsActive) =
      (cfg.domain ++ ascii "-") :: (ascii "PIPELINING" ++ ascii "-") :: rest := by
  cases tlsActive with
  | true | false => exact ⟨_, rfl⟩

theorem not_multilineReply (cfg : Config) (tlsActive : Bool) :
    ¬ MultilineReply (sentLines (capabilities cfg tlsActive)) := by
  obtain ⟨rest, lines⟩ := sentLines_capabilities cfg tlsActive
  rw [lines]
  rintro ⟨texts, last, same⟩
  have coded : ∀ line ∈ texts.map (ascii "250-" ++ ·) ++ [ascii "250 " ++ last],
      line.head? = some (code '2') := by
    intro line there
    rcases List.mem_append.mp there with continued | final
    · obtain ⟨text, -, rfl⟩ := List.mem_map.mp continued
      rfl
    · rw [List.mem_singleton.mp final]
      rfl
  have first := coded (ascii "PIPELINING" ++ ascii "-") (same ▸ .tail _ (.head _))
  exact absurd first (by decide)

/-- The bytes of the lines on the wire. -/
def wire (lines : List Bytes) : Bytes := lines.flatMap (· ++ crlf)

theorem wire_head (cfg : Config) (tlsActive : Bool) :
    (wire (sentLines (capabilities cfg tlsActive))).head? =
      (cfg.domain ++ ascii "-").head? := by
  obtain ⟨rest, lines⟩ := sentLines_capabilities cfg tlsActive
  rw [lines, wire, List.flatMap_cons, List.append_assoc, List.append_assoc]
  cases cfg.domain with
  | nil | cons => rfl

/-- For every configuration, argument and session: what `handleEhlo` sends is not a reply,
    and however much of it the first read after the client's EHLO gives, the client goes
    on if and only if the domain begins with a 2. -/
theorem ehlo_reply (cfg : Config) (arg : Bytes) (c : Conn) :
    ∃ lines, (since c (handleEhlo cfg arg c)).reverse = lines.map .reply ∧
      ¬ MultilineReply lines ∧
      ∀ net : Network, ∀ client : Client, ∀ command : Bytes, ∀ data fits,
        net.recvs client.reads = .bytes data fits → data <+: wire lines → data ≠ [] →
        ((client.ask net command).unexpected (code '2') = false ↔
          cfg.domain.head? = some (code '2')) := by
  refine ⟨_, handleEhlo_replies cfg arg c, not_multilineReply cfg _, ?_⟩
  intro net client command data fits read shown nonempty
  have first : net.reply client.reads = (cfg.domain ++ ascii "-").head? := by
    obtain ⟨b, others, rfl⟩ := List.exists_cons_of_ne_nil nonempty
    obtain ⟨rest, text⟩ := shown
    rw [← wire_head cfg c.session.tlsActive, ← text, Network.reply, read]
    rfl
  rw [← Bool.not_eq_true, ask_unexpected rfl, not_not, first]
  cases cfg.domain with
  | nil => decide
  | cons b rest => exact Iff.rfl

/-- With the default domain the first line is `example.com-`. -/
theorem ehlo_unreadable :
    let cfg : Config := { minTlsVersion := TLS1_2_VERSION }
    let c : Conn := .fresh false { input := [] }
    ∃ lines, (since c (handleEhlo cfg (ascii "mx") c)).reverse = lines.map .reply ∧
      lines.head? = some (ascii "example.com-") ∧ ¬ MultilineReply lines :=
  ⟨_, handleEhlo_replies _ _ _, by decide, not_multilineReply _ _⟩

end EmailServer.Delivery
