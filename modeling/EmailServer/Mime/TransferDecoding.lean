import EmailServer.Mime.MimeParser

/-! # The body of a message

The body that `parse` decodes begins with the headers, and the encoding it decodes with is
the value of a header from the colon to the carriage return. No such value is the name of
an encoding, so the whole message becomes the body.
-/

namespace EmailServer.Mime

open Bytes (crlf crlfLines)
open MimeParser

/-- The lines of a header that names the encoding and no boundary. -/
structure HeaderBlock (encoding : TransferEncoding) (lines : List Bytes) : Prop where
  clean : ∀ line ∈ lines, line ≠ [] ∧ Bytes.cr ∉ line ∧ Bytes.lf ∉ line
  named : ∃ name text, Bytes.toLower name = ascii "content-transfer-encoding" ∧
    Bytes.toLower text = encoding.name ∧ name ++ ascii ": " ++ text ∈ lines
  whole : ∀ value, parseHeaders (crlfLines lines) (ascii "content-type") = some value →
    Bytes.find (ascii "boundary=") value = none

section Values

variable {headers : MimeHeaderMap} {lastKey key value line : Bytes} {lines : List Bytes}

theorem parseHeaderLines_ending (ended : ∀ line ∈ lines, line.getLast? = some Bytes.cr)
    (before : ∀ key value, headers key = some value → value.getLast? = some Bytes.cr)
    (read : parseHeaderLines headers lastKey lines key = some value) :
    value.getLast? = some Bytes.cr := by
  induction lines generalizing headers lastKey with
  | nil => exact before key value read
  | cons line lines ih =>
      have last := ended line List.mem_cons_self
      have later : ∀ l ∈ lines, l.getLast? = some Bytes.cr := fun l there =>
        ended l (List.mem_cons_of_mem line there)
      have updated : ∀ {name text : Bytes}, text.getLast? = some Bytes.cr → ∀ key value,
          Function.update headers name (some text) key = some value →
            value.getLast? = some Bytes.cr := by
        intro name text ends key value read
        rw [Function.update_apply] at read
        split at read
        · cases read
          exact ends
        · exact before key value read
      rw [parseHeaderLines] at read
      split at read
      · exact before key value read
      split at read
      · exact ih later (updated (by simp [last])) read
      cases cut : Bytes.cut Bytes.colon line with
      | none =>
          rw [cut] at read
          exact ih later before read
      | some parts =>
          obtain ⟨name, text⟩ := parts
          rw [cut] at read
          refine ih later (updated ?_) read
          rw [Bytes.cut_eq cut] at last
          cases text with
          | nil => simp [Bytes.colon, Bytes.cr] at last
          | cons b text => simpa using last

theorem parseHeaders_unnamed (clean : ∀ line ∈ lines, Bytes.lf ∉ line)
    (read : parseHeaders (crlfLines lines) key = some value) {name : Bytes}
    (plain : name.getLast? ≠ some Bytes.cr) : Bytes.toLower value ≠ name := by
  rw [parseHeaders, getlines_crlfLines clean] at read
  have last := parseHeaderLines_ending (by simp) (by simp) read
  rintro rfl
  refine plain ?_
  rw [Bytes.toLower, List.getLast?_map, last]
  rfl

end Values

variable {encoding : TransferEncoding} {lines : List Bytes} {content text : Bytes}

theorem decodeTransferEncoding_unknown {data name : Bytes}
    (quoted : Bytes.toLower name ≠ ascii "quoted-printable")
    (base64 : Bytes.toLower name ≠ ascii "base64") :
    MimeDecoder.decodeTransferEncoding data name = data := by
  simp only [MimeDecoder.decodeTransferEncoding, if_neg quoted, if_neg base64, ite_self]

/-- The header stays in the body. -/
theorem parse_body (block : HeaderBlock encoding lines) (text : Bytes) :
    (parse (crlfLines lines ++ crlf ++ text)).root.body = crlfLines lines ++ crlf ++ text := by
  have clean : ∀ line ∈ lines, Bytes.lf ∉ line := fun line there => (block.clean line there).2.2
  have headers := parseHeaders_block clean text
  have boundary : boundaryOf (parseHeaders (crlfLines lines)) = [] := by
    unfold boundaryOf
    split
    · rfl
    · rename_i value read
      rw [block.whole value read]
  have unchanged : ∀ data, MimeDecoder.decodeTransferEncoding data
      (encodingOf (parseHeaders (crlfLines lines))) = data := by
    intro data
    cases read : parseHeaders (crlfLines lines) (ascii "content-transfer-encoding") with
    | none =>
        rw [encodingOf, read]
        exact decodeTransferEncoding_unknown (by decide) (by decide)
    | some value =>
        rw [encodingOf, read]
        exact decodeTransferEncoding_unknown (parseHeaders_unnamed clean read (by decide))
          (parseHeaders_unnamed clean read (by decide))
  rw [parse, headers, boundary, parsePart, if_pos rfl, parseLeaf, headers]
  exact unchanged _

/-- For every header block with a transfer encoding and no boundary, every content and every
    text that encodes it: the body that `parse` returns is not the content. -/
theorem body_not_recovered (block : HeaderBlock encoding lines)
    (encodes : encoding.Encodes content text) :
    (parse (crlfLines lines ++ crlf ++ text)).root.body ≠ content := by
  rw [parse_body block]
  rintro rfl
  have shorter := encodes.length_le
  simp only [List.length_append, show crlf.length = 2 from rfl] at shorter
  omega

/-- A message in base64. -/
theorem body_not_recovered_base64 :
    (parse (crlfLines [ascii "Content-Transfer-Encoding: Base64"] ++ crlf ++
      ascii "aGk=")).root.body ≠ ascii "hi" := by
  refine @body_not_recovered .base64 _ _ _ ⟨by decide, ?_, ?_⟩
    (show _ = Base64.encode (ascii "hi") by decide)
  · exact ⟨ascii "Content-Transfer-Encoding", ascii "Base64", by decide, by decide, by decide⟩
  · intro value read
    have absent : parseHeaders (crlfLines [ascii "Content-Transfer-Encoding: Base64"])
        (ascii "content-type") = none := by decide
    rw [absent] at read
    cases read

/-- Even a body that is not encoded comes back behind its headers. -/
theorem headers_kept_in_body :
    (parse (ascii "Content-Transfer-Encoding: 7bit\r\n\r\nhi")).root.body ≠ ascii "hi" := by decide

end EmailServer.Mime
