import Mathlib.Data.List.Forall2
import EmailServer.Mime.MimeParser

/-! # Multipart messages

The delimiter that `parse` looks for has one character more than that of the message: the
carriage return behind an unquoted boundary, the closing quote behind a quoted one. A quoted
boundary is therefore not found at all, and behind an unquoted one every part begins with a
line feed, at which the headers of the part end before they have begun.
-/

namespace EmailServer.Mime

open Bytes (crlf crlfLines find upTo)
open MimeParser

/-- A character of a token: printable, and neither a space nor one of `()<>@,;:\"/[]?=`. -/
def IsToken (c : UInt8) : Prop := 33 ≤ c ∧ c ≤ 126 ∧ c ∉ ascii "()<>@,;:\\\"/[]?="

instance (c : UInt8) : Decidable (IsToken c) :=
  inferInstanceAs (Decidable (33 ≤ c ∧ c ≤ 126 ∧ c ∉ ascii "()<>@,;:\\\"/[]?="))

/-- A part before it is written: names and values of its headers, and its body. -/
structure Part where
  fields : List (Bytes × Bytes)
  body : Bytes

def Part.text (part : Part) : Bytes :=
  crlfLines (part.fields.map fun field => field.1 ++ ascii ": " ++ field.2) ++ crlf ++ part.body

/-- A multipart message before it is written. -/
structure Multipart where
  /-- The header lines in front of `Content-Type`. -/
  fields : List Bytes
  /-- What `Content-Type` says in front of the boundary. -/
  media : Bytes
  boundary : Bytes
  quoted : Bool
  parts : List Part

namespace Multipart

def delimiter (m : Multipart) : Bytes := ascii "--" ++ m.boundary

/-- The boundary as the parameter writes it. -/
def parameter (m : Multipart) : Bytes :=
  if m.quoted then ascii "\"" ++ m.boundary ++ ascii "\"" else m.boundary

def contentType (m : Multipart) : Bytes :=
  ascii "Content-Type: " ++ m.media ++ ascii "; boundary=" ++ m.parameter

/-- The parts, each behind a line with the delimiter, and the line that closes the message. -/
def written (delimiter : Bytes) : List Part → Bytes
  | [] => delimiter ++ ascii "--" ++ crlf
  | part :: parts => delimiter ++ crlf ++ part.text ++ crlf ++ written delimiter parts

def message (m : Multipart) : Bytes :=
  crlfLines (m.fields ++ [m.contentType]) ++ crlf ++ written m.delimiter m.parts

/-- The boundary is a token, and nothing but the lines made of it contains the delimiter. -/
structure WellFormed (m : Multipart) : Prop where
  nonempty : m.boundary ≠ []
  token : ∀ c ∈ m.boundary, IsToken c
  fields : ∀ line ∈ m.fields, line ≠ [] ∧ Bytes.cr ∉ line ∧ Bytes.lf ∉ line ∧
    find m.delimiter line = none
  media : Bytes.cr ∉ m.media ∧ Bytes.lf ∉ m.media ∧ find m.delimiter m.media = none ∧
    find (ascii "boundary=") m.media = none
  parts : ∀ part ∈ m.parts, find m.delimiter part.text = none

/-- The child has the body and the headers of the part. -/
structure Recovered (part : Part) (child : MimePart) : Prop where
  body : child.body = part.body
  headers : ∀ field ∈ part.fields, child.headers (Bytes.toLower field.1) = some field.2

/-- The children are the parts, in order. -/
def Recovers (m : Multipart) : Prop :=
  List.Forall₂ Recovered m.parts (parse m.message).root.children

section Delimiter

variable {m : Multipart} {after line : Bytes}

theorem delimiter_length (m : Multipart) : m.delimiter.length = m.boundary.length + 2 := by
  simp [delimiter, ascii]

theorem WellFormed.foreign (wf : m.WellFormed) {c : UInt8} (other : ¬ IsToken c) :
    c ∉ m.delimiter := by
  have dash : IsToken 45 := by decide
  intro there
  rcases List.mem_append.mp there with dashes | within
  · have two : ascii "--" = List.replicate 2 45 := rfl
    rw [two] at dashes
    exact other (List.eq_of_mem_replicate dashes ▸ dash)
  · exact other (wf.token c within)

theorem WellFormed.absent_ended (wf : m.WellFormed) (absent : find m.delimiter line = none) :
    find m.delimiter (line ++ [Bytes.cr]) = none := by
  rw [Bytes.find_past absent (wf.foreign (by decide))]
  exact Bytes.find_short (by simp [delimiter_length])

theorem WellFormed.pass (wf : m.WellFormed) {e : UInt8} (notLf : e ≠ Bytes.lf)
    (absent : find m.delimiter line = none) (after : Bytes) :
    find (m.delimiter ++ [e]) (line ++ crlf ++ after) = find (m.delimiter ++ [e]) after := by
  have stops : Bytes.lf ∉ m.delimiter ++ [e] := by
    have lf := wf.foreign (c := Bytes.lf) (by decide)
    simp [lf, Ne.symm notLf]
  have past := Bytes.find_past (Bytes.find_longer (wf.absent_ended absent) [e]) stops after
  simpa [crlf] using past

theorem WellFormed.contentType_absent (wf : m.WellFormed) :
    find m.delimiter m.contentType = none := by
  have parameter : find m.delimiter m.parameter = none := by
    unfold parameter
    split
    · have tail : find m.delimiter (m.boundary ++ ascii "\"") = none :=
        Bytes.find_short (by simp [delimiter_length, ascii])
      rw [List.append_assoc]
      exact (Bytes.find_skip (by decide)).trans tail
    · refine Bytes.find_short ?_
      rw [delimiter_length]
      omega
  have rest : find m.delimiter (ascii " boundary=" ++ m.parameter) = none :=
    (Bytes.find_skip (by decide)).trans parameter
  have media : find m.delimiter (ascii " " ++ m.media) = none :=
    (Bytes.find_skip (by decide)).trans wf.media.2.2.1
  have name : find m.delimiter (ascii "Content-Type") = none := by
    simp [delimiter, ascii, find, List.isPrefixOf]
  have colon : Bytes.colon ∉ m.delimiter := wf.foreign (by decide)
  have semicolon : Bytes.semicolon ∉ m.delimiter := wf.foreign (by decide)
  have line : m.contentType = ascii "Content-Type" ++ Bytes.colon ::
      (ascii " " ++ m.media ++ Bytes.semicolon :: (ascii " boundary=" ++ m.parameter)) := by
    simp [contentType, ascii, Bytes.colon, Bytes.semicolon]
  rw [line, Bytes.find_past name colon, Bytes.find_past media semicolon, rest]

/-- The search comes to the first delimiter line. -/
theorem WellFormed.find_message (wf : m.WellFormed) {e : UInt8} (notLf : e ≠ Bytes.lf) :
    find (m.delimiter ++ [e]) m.message =
      find (m.delimiter ++ [e]) (written m.delimiter m.parts) := by
  have passAll : ∀ lines : List Bytes, (∀ line ∈ lines, find m.delimiter line = none) →
      find (m.delimiter ++ [e]) (crlfLines lines ++ crlf ++ written m.delimiter m.parts) =
        find (m.delimiter ++ [e]) (written m.delimiter m.parts) := by
    intro lines absent
    induction lines with
    | nil =>
        have short : find m.delimiter [] = none := Bytes.find_short (by simp [delimiter_length])
        exact wf.pass notLf short _
    | cons line lines ih =>
        have passed := wf.pass notLf (absent line List.mem_cons_self)
          (crlfLines lines ++ crlf ++ written m.delimiter m.parts)
        rw [← ih fun l there => absent l (List.mem_cons_of_mem line there), ← passed]
        simp [crlfLines]
  refine passAll _ fun line there => ?_
  rcases List.mem_append.mp there with field | last
  · exact (wf.fields line field).2.2.2
  · obtain rfl := List.mem_singleton.mp last
    exact wf.contentType_absent

end Delimiter

/-! ## The boundary that is found -/

section Boundary

variable {m : Multipart}

theorem parseHeaderLines_append (headers : MimeHeaderMap) (lastKey : Bytes) {lines : List Bytes}
    (open_ : ∀ line ∈ lines, line ≠ [Bytes.cr] ∧ line ≠ []) (more : List Bytes) :
    ∃ headers' lastKey', parseHeaderLines headers lastKey (lines ++ more) =
      parseHeaderLines headers' lastKey' more := by
  induction lines generalizing headers lastKey with
  | nil => exact ⟨headers, lastKey, rfl⟩
  | cons line lines ih =>
      have stays := open_ line List.mem_cons_self
      have later : ∀ l ∈ lines, l ≠ [Bytes.cr] ∧ l ≠ [] := fun l there =>
        open_ l (List.mem_cons_of_mem line there)
      rw [List.cons_append, parseHeaderLines, if_neg (by simp [stays])]
      split
      · exact ih _ _ later
      · cases Bytes.cut Bytes.colon line with
        | none => exact ih _ _ later
        | some parts => exact ih _ _ later

theorem WellFormed.contentType_clean (wf : m.WellFormed) : Bytes.lf ∉ m.contentType := by
  have boundary : Bytes.lf ∉ m.boundary := fun there =>
    wf.foreign (c := Bytes.lf) (by decide) (List.mem_append_right _ there)
  have parameter : Bytes.lf ∉ m.parameter := by
    have quote : Bytes.lf ∉ ascii "\"" := by decide
    unfold parameter
    split
    · simp [quote, boundary]
    · exact boundary
  have name : Bytes.lf ∉ ascii "Content-Type: " := by decide
  have key : Bytes.lf ∉ ascii "; boundary=" := by decide
  simp [contentType, name, key, wf.media.2.1, parameter]

theorem WellFormed.parseHeaders_contentType (wf : m.WellFormed) :
    parseHeaders m.message (ascii "content-type") =
      some (ascii " " ++ m.media ++ ascii "; boundary=" ++ m.parameter ++ [Bytes.cr]) := by
  have clean : ∀ line ∈ m.fields ++ [m.contentType], Bytes.lf ∉ line := by
    intro line there
    rcases List.mem_append.mp there with field | last
    · exact (wf.fields line field).2.2.1
    · exact List.mem_singleton.mp last ▸ wf.contentType_clean
  have open_ : ∀ line ∈ m.fields.map (· ++ [Bytes.cr]), line ≠ [Bytes.cr] ∧ line ≠ [] := by
    intro line there
    obtain ⟨text, field, rfl⟩ := List.mem_map.mp there
    simp [(wf.fields text field).1]
  obtain ⟨headers, lastKey, passed⟩ := parseHeaderLines_append (fun _ => none) [] open_
    [m.contentType ++ [Bytes.cr]]
  have cut : Bytes.cut Bytes.colon (m.contentType ++ [Bytes.cr]) = some (ascii "Content-Type",
      ascii " " ++ m.media ++ ascii "; boundary=" ++ m.parameter ++ [Bytes.cr]) := by
    have line : m.contentType ++ [Bytes.cr] = ascii "Content-Type" ++ Bytes.colon ::
        (ascii " " ++ m.media ++ ascii "; boundary=" ++ m.parameter ++ [Bytes.cr]) := by
      simp [contentType, ascii, Bytes.colon]
    rw [line]
    exact Bytes.cut_append (by decide) _
  have first : (m.contentType ++ [Bytes.cr]).head? = some 67 := rfl
  have filled : m.contentType ++ [Bytes.cr] ≠ [Bytes.cr] ∧ m.contentType ++ [Bytes.cr] ≠ [] := by
    simp [contentType, ascii]
  rw [message, parseHeaders_block clean, parseHeaders, getlines_crlfLines clean, List.map_append,
    List.map_singleton, passed, parseHeaderLines, if_neg (by simp [filled]), first,
    if_neg (by decide), cut]
  dsimp only [parseHeaderLines]
  have key : Bytes.toLower (ascii "Content-Type") = ascii "content-type" := by decide
  rw [key, Function.update_self]

theorem WellFormed.boundaryOf_message (wf : m.WellFormed) :
    boundaryOf (parseHeaders m.message) = m.boundary ++ [if m.quoted then 34 else Bytes.cr] := by
  have found : find (ascii "boundary=")
      (ascii " " ++ m.media ++ ascii "; boundary=" ++ m.parameter ++ [Bytes.cr]) =
        some (ascii "boundary=" ++ (m.parameter ++ [Bytes.cr])) := by
    have media : find (ascii "boundary=") (ascii " " ++ m.media) = none :=
      (Bytes.find_skip (by decide)).trans wf.media.2.2.2
    have value : ascii " " ++ m.media ++ ascii "; boundary=" ++ m.parameter ++ [Bytes.cr] =
        ascii " " ++ m.media ++ Bytes.semicolon ::
          (ascii " " ++ (ascii "boundary=" ++ (m.parameter ++ [Bytes.cr]))) := by
      simp [ascii, Bytes.semicolon]
    rw [value, Bytes.find_past media (by decide)]
    exact (Bytes.find_skip (by decide)).trans (Bytes.find_start _ _)
  have rest : (ascii "boundary=" ++ (m.parameter ++ [Bytes.cr])).drop 9 =
      m.parameter ++ [Bytes.cr] := rfl
  rw [boundaryOf, wf.parseHeaders_contentType]
  dsimp only
  rw [found]
  dsimp only
  rw [rest]
  obtain ⟨c, later, boundary⟩ := List.exists_cons_of_ne_nil wf.nonempty
  cases quoted : m.quoted with
  | true =>
      have parameter : m.parameter ++ [Bytes.cr] = 34 :: (m.boundary ++ [34, Bytes.cr]) := by
        simp [Multipart.parameter, quoted, ascii]
      have kept : (m.boundary ++ [34] ++ [Bytes.cr]).take (m.boundary.length + 1) =
          m.boundary ++ [34] := List.take_left' (by simp)
      rw [parameter, if_pos rfl]
      simpa using kept
  | false =>
      have notQuote : c ≠ 34 := by
        rintro rfl
        exact absurd (wf.token 34 (boundary ▸ List.mem_cons_self)) (by decide)
      have parameter : m.parameter = m.boundary := by simp [Multipart.parameter, quoted]
      rw [parameter, boundary, if_neg (by simp [notQuote])]
      rfl

end Boundary

/-! ## The children -/

section Children

variable {m : Multipart} {part : Part} {parts : List Part}

theorem WellFormed.first_child (wf : m.WellFormed) {delim : Bytes}
    (searched : delim = m.delimiter ++ [if m.quoted then 34 else Bytes.cr]) {child : MimePart}
    {later : List MimePart} (children : (parse m.message).root.children = child :: later) :
    ∃ hit next, find delim (written m.delimiter m.parts) = some hit ∧
      find delim (hit.drop delim.length) = some next ∧
      child = parseLeaf (upTo delim (hit.drop delim.length)) := by
  have notLf : (if m.quoted then 34 else Bytes.cr) ≠ Bytes.lf := by
    split <;> decide
  have nonempty : m.boundary ++ [if m.quoted then 34 else Bytes.cr] ≠ [] := by simp
  rw [parse, wf.boundaryOf_message, parsePart, if_neg nonempty, ← List.append_assoc, ← delimiter,
    ← searched] at children
  obtain ⟨first, texts, cut, rfl, -⟩ := List.map_eq_cons_iff.mp children
  obtain ⟨hit, next, found, again, rfl⟩ := childTexts_first cut
  have same := wf.find_message notLf
  rw [← searched] at same
  exact ⟨hit, next, same ▸ found, again, rfl⟩

theorem WellFormed.quoted_absent (wf : m.WellFormed)
    (absent : ∀ part ∈ parts, find m.delimiter part.text = none) :
    find (m.delimiter ++ [34]) (written m.delimiter parts) = none := by
  have quote : (34 : UInt8) ∉ m.delimiter := wf.foreign (by decide)
  have inWord : (34 : UInt8) ∈ m.delimiter ++ [34] := by simp
  induction parts with
  | nil =>
      refine Bytes.find_absent inWord ?_
      have closing : (34 : UInt8) ∉ ascii "--" ++ crlf := by decide
      simpa [written, quote] using closing
  | cons part parts ih =>
      have later := ih fun p there => absent p (List.mem_cons_of_mem part there)
      have line : find (m.delimiter ++ [34]) (m.delimiter ++ [Bytes.cr]) = none :=
        Bytes.find_absent inWord (by simp [quote, Bytes.cr])
      have stops : Bytes.lf ∉ m.delimiter ++ [34] := by
        have lf := wf.foreign (c := Bytes.lf) (by decide)
        simpa [lf] using (by decide : Bytes.lf ≠ 34)
      have past := Bytes.find_past line stops (part.text ++ crlf ++ written m.delimiter parts)
      rw [wf.pass (by decide) (absent part List.mem_cons_self), later] at past
      rw [← past, written]
      simp [crlf]

theorem parseLeaf_lf (text : Bytes) : (parseLeaf (Bytes.lf :: text)).body = Bytes.lf :: text := by
  have none : parseHeaders (Bytes.lf :: text) = fun _ => none := by
    have pieces : Bytes.splitOn (· == Bytes.lf) (Bytes.lf :: text) =
        [] :: Bytes.splitOn (· == Bytes.lf) text := by
      rw [Bytes.splitOn, if_pos (by decide)]
    have split : Bytes.splitOn (· == Bytes.lf) (Bytes.lf :: text) =
        [[]] ++ Bytes.splitOn (· == Bytes.lf) text := pieces
    obtain ⟨more, read⟩ := Bytes.getlines_prefix (Bytes.splitOn_ne_nil _ text) split
    rw [parseHeaders, read]
    rfl
  rw [parseLeaf, none]
  rfl

/-- Behind an unquoted boundary the first child is longer than the body of the first part. -/
theorem WellFormed.child_longer (wf : m.WellFormed) (absent : find m.delimiter part.text = none)
    {delim hit : Bytes} (searched : delim = m.delimiter ++ [Bytes.cr])
    (found : find delim (written m.delimiter (part :: parts)) = some hit) :
    part.body.length < (parseLeaf (upTo delim (hit.drop delim.length))).body.length := by
  have start : written m.delimiter (part :: parts) =
      delim ++ (Bytes.lf :: (part.text ++ crlf ++ written m.delimiter parts)) := by
    simp [written, searched, crlf]
  rw [start, Bytes.find_start] at found
  have lf : Bytes.lf ∉ delim := by
    have foreign := wf.foreign (c := Bytes.lf) (by decide)
    simpa [searched, foreign] using (by decide : Bytes.lf ≠ Bytes.cr)
  have none : find delim (Bytes.lf :: (part.text ++ [Bytes.cr])) = none := by
    have shorter : find m.delimiter ([Bytes.lf] ++ (part.text ++ [Bytes.cr])) = none :=
      (Bytes.find_skip (by decide)).trans (wf.absent_ended absent)
    rw [searched]
    exact Bytes.find_longer shorter [Bytes.cr]
  have child : hit.drop delim.length =
      Bytes.lf :: (part.text ++ [Bytes.cr]) ++ Bytes.lf :: written m.delimiter parts := by
    rw [← Option.some.inj found, List.drop_left]
    simp [crlf]
  rw [child, Bytes.upTo_append none lf, List.cons_append, parseLeaf_lf]
  simp only [Part.text, List.length_cons, List.length_append]
  omega

end Children

/-- For every boundary, quoted or not, and every list of parts: the children are the parts if
    and only if there are none. -/
theorem recovers_iff {m : Multipart} (wf : m.WellFormed) : m.Recovers ↔ m.parts = [] := by
  let delim := m.delimiter ++ [if m.quoted then 34 else Bytes.cr]
  have named : delim = m.delimiter ++ [if m.quoted then 34 else Bytes.cr] := rfl
  constructor
  · intro recovers
    unfold Recovers at recovers
    cases given : m.parts with
    | nil => rfl
    | cons part parts =>
        exfalso
        cases children : (parse m.message).root.children with
        | nil =>
            rw [given, children] at recovers
            cases recovers
        | cons child later =>
            rw [given, children] at recovers
            obtain ⟨recovered, -⟩ := List.forall₂_cons.mp recovers
            obtain ⟨hit, next, found, again, rfl⟩ := wf.first_child named children
            cases quoted : m.quoted with
            | true =>
                have absent := wf.quoted_absent wf.parts
                simp only [delim, quoted, if_true] at found
                rw [absent] at found
                cases found
            | false =>
                have unquoted : delim = m.delimiter ++ [Bytes.cr] := by simp [delim, quoted]
                rw [given] at found
                have longer := wf.child_longer (wf.parts part (given ▸ List.mem_cons_self))
                  unquoted found
                rw [recovered.body] at longer
                exact absurd longer (Nat.lt_irrefl _)
  · intro empty
    unfold Recovers
    rw [empty]
    cases children : (parse m.message).root.children with
    | nil => exact .nil
    | cons child later =>
        obtain ⟨hit, next, found, again, -⟩ := wf.first_child named children
        -- behind an occurrence in the closing line there is no room for another
        have bound := (Bytes.find_suffix found).2.length_le
        rw [Bytes.find_short] at again
        · cases again
        · have closing : (ascii "--" ++ crlf).length = 4 := rfl
          rw [empty, written, List.append_assoc, List.length_append, closing] at bound
          simp only [delim, List.length_drop, List.length_append, List.length_singleton]
          have dashes := delimiter_length m
          have nonempty := List.length_pos_iff.mpr wf.nonempty
          omega

/-- A message with a header line and two parts. -/
def letter : Multipart where
  fields := [ascii "From: a"]
  media := ascii "multipart/mixed"
  boundary := ascii "b1"
  quoted := true
  parts := [⟨[(ascii "Content-Type", ascii "text/plain")], ascii "hi"⟩, ⟨[], ascii "ho"⟩]

theorem letter_wellFormed : letter.WellFormed where
  nonempty := by decide
  token := by
    have first : IsToken 98 := by decide
    have second : IsToken 49 := by decide
    rintro c there
    rcases List.mem_pair.mp there with rfl | rfl
    · exact first
    · exact second
  fields := by decide
  media := by decide
  parts := by decide

/-- It is recovered without its parts, and only so. -/
theorem recovers_letter : ¬ letter.Recovers ∧ { letter with parts := [] }.Recovers := by
  have empty : { letter with parts := [] }.WellFormed :=
    { letter_wellFormed with parts := fun part none_ => absurd none_ List.not_mem_nil }
  refine ⟨?_, (recovers_iff empty).mpr rfl⟩
  rw [recovers_iff letter_wellFormed]
  decide

/-- A single part is no child. -/
theorem part_lost :
    ¬ (⟨[], ascii "multipart/mixed", ascii "b", false, [⟨[], ascii "hi"⟩]⟩ : Multipart).Recovers := by
  intro recovers
  have count := recovers.length_eq
  revert count
  decide

end Multipart

end EmailServer.Mime
