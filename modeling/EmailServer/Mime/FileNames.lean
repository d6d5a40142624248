import EmailServer.Library.Spelling
import EmailServer.Mime.Multipart
import EmailServer.Policy.AttachmentPolicy

/-! # The names of attachments

`filename` takes what is between the quotes behind the first `filename=`, and without a quote all
of the header that is left. The headers keep the carriage returns of their lines, so a name without
quotes never ends where it should, and the policy does not know its extension.
-/

namespace EmailServer.Mime

open Bytes (crlf crlfLines find)
open MimeParser

def quote : UInt8 := 34
def backslash : UInt8 := 92

def MimePart.filename (part : MimePart) : Bytes :=
  match part.headers (ascii "content-disposition") with
  | none => []
  | some value =>
      match find (ascii "filename=") value with
      | none => []
      | some hit =>
          let rest := hit.drop 9
          if rest.head? = some quote then (rest.drop 1).takeWhile (· != quote) else rest

/-! ## Header fields -/

/-- A header field with its folds. -/
structure Field where
  name : Bytes
  first : Bytes
  folds : List Bytes

namespace Field

/-- The text behind the colon. -/
def raw (field : Field) : Bytes := field.first ++ field.folds.flatMap (crlf ++ ·)

def lines (field : Field) : List Bytes := (field.name ++ Bytes.colon :: field.first) :: field.folds

def key (field : Field) : Bytes := Bytes.toLower field.name

def isBlank (c : UInt8) : Prop := c = Bytes.space ∨ c = Bytes.tab

instance : DecidablePred isBlank := fun c =>
  inferInstanceAs (Decidable (c = Bytes.space ∨ c = Bytes.tab))

structure WellFormed (field : Field) : Prop where
  name : Bytes.colon ∉ field.name
  start : ∃ c rest, field.name = c :: rest ∧ ¬ isBlank c
  folds : ∀ line ∈ field.folds, ∃ c rest, line = c :: rest ∧ isBlank c
  clean : ∀ line ∈ field.lines, Bytes.lf ∉ line

end Field

/-- What `parseHeaders` makes of a text behind a colon. -/
def seen (raw : Bytes) : Bytes := raw.map fun c => if c = Bytes.lf then Bytes.space else c

/-- A message with these header fields. -/
def fieldMessage (fields : List Field) (body : Bytes) : Bytes :=
  crlfLines (fields.flatMap Field.lines) ++ crlf ++ body

section Fields

variable {headers : MimeHeaderMap} {lastKey key value : Bytes} {field : Field} {fields : List Field}
  {folds more : List Bytes}

theorem seen_clean {text : Bytes} (clean : Bytes.lf ∉ text) : seen text = text := by
  refine (List.map_congr_left fun c member => ?_).trans (List.map_id text)
  have other : c ≠ Bytes.lf := fun same => clean (same ▸ member)
  exact if_neg other

theorem seen_append {text rest : Bytes} : seen (text ++ rest) = seen text ++ seen rest :=
  List.map_append

theorem seen_crlf : seen crlf = [Bytes.cr, Bytes.space] := rfl

theorem seen_folds (clean : ∀ line ∈ folds, Bytes.lf ∉ line) :
    seen (folds.flatMap (crlf ++ ·)) ++ [Bytes.cr] =
      Bytes.cr :: folds.flatMap fun line => Bytes.space :: line ++ [Bytes.cr] := by
  induction folds with
  | nil => rfl
  | cons line folds ih =>
      obtain ⟨here, later⟩ := List.forall_mem_cons.mp clean
      rw [List.flatMap_cons, seen_append, seen_append, seen_clean here, seen_crlf, List.append_assoc,
        ih later, List.flatMap_cons]
      simp

theorem parseHeaderLines_folds (blank : ∀ line ∈ folds, ∃ c rest, line = c :: rest ∧ Field.isBlank c) :
    parseHeaderLines (Function.update headers key (some value)) key
        (folds.map (· ++ [Bytes.cr]) ++ more) =
      parseHeaderLines (Function.update headers key
        (some (value ++ folds.flatMap fun line => Bytes.space :: line ++ [Bytes.cr]))) key more := by
  induction folds generalizing value with
  | nil => simp
  | cons line folds ih =>
      obtain ⟨⟨c, rest, rfl, isBlank⟩, later⟩ := List.forall_mem_cons.mp blank
      have notEmpty : ¬ (c :: rest ++ [Bytes.cr] = [Bytes.cr] ∨ c :: rest ++ [Bytes.cr] = []) := by
        simp
      have folded : (c :: rest ++ [Bytes.cr]).head? = some Bytes.space ∨
          (c :: rest ++ [Bytes.cr]).head? = some Bytes.tab := by
        simpa [Field.isBlank] using isBlank
      rw [List.map_cons, List.cons_append, parseHeaderLines, if_neg notEmpty, if_pos folded]
      simp only [Function.update_self, Function.update_idem, Option.getD_some]
      rw [ih later]
      simp [ascii, Bytes.space]

theorem parseHeaderLines_field (wf : field.WellFormed) :
    parseHeaderLines headers lastKey (field.lines.map (· ++ [Bytes.cr]) ++ more) =
      parseHeaderLines (Function.update headers field.key (some (seen field.raw ++ [Bytes.cr])))
        field.key more := by
  obtain ⟨c, rest, named, notBlank⟩ := wf.start
  obtain ⟨head, folds⟩ := List.forall_mem_cons.mp wf.clean
  have notEmpty : ¬ (field.name ++ Bytes.colon :: field.first ++ [Bytes.cr] = [Bytes.cr] ∨
      field.name ++ Bytes.colon :: field.first ++ [Bytes.cr] = []) := by
    simp [named]
  have notFolded : ¬ ((field.name ++ Bytes.colon :: field.first ++ [Bytes.cr]).head? =
      some Bytes.space ∨ (field.name ++ Bytes.colon :: field.first ++ [Bytes.cr]).head? =
        some Bytes.tab) := by
    simpa [named, Field.isBlank] using notBlank
  have parts : Bytes.cut Bytes.colon (field.name ++ Bytes.colon :: field.first ++ [Bytes.cr]) =
      some (field.name, field.first ++ [Bytes.cr]) := by
    have cut := Bytes.cut_append wf.name (field.first ++ [Bytes.cr])
    simpa using cut
  have whole : field.first ++ [Bytes.cr] ++
      field.folds.flatMap (fun line => Bytes.space :: line ++ [Bytes.cr]) =
        seen field.raw ++ [Bytes.cr] := by
    rw [Field.raw, seen_append, List.append_assoc (seen field.first), seen_folds folds, seen_clean]
    · simp
    · exact fun inside => head (List.mem_append_right _ (List.mem_cons_of_mem _ inside))
  rw [Field.lines, List.map_cons, List.cons_append, parseHeaderLines, if_neg notEmpty,
    if_neg notFolded, parts]
  dsimp only
  rw [parseHeaderLines_folds wf.folds, whole]
  rfl

theorem parseHeaderLines_others (wf : ∀ field ∈ fields, field.WellFormed)
    (other : ∀ field ∈ fields, field.key ≠ key) :
    parseHeaderLines headers lastKey ((fields.flatMap Field.lines).map (· ++ [Bytes.cr])) key =
      headers key := by
  induction fields generalizing headers lastKey with
  | nil => rfl
  | cons field fields ih =>
      obtain ⟨isField, areFields⟩ := List.forall_mem_cons.mp wf
      obtain ⟨here, later⟩ := List.forall_mem_cons.mp other
      rw [List.flatMap_cons, List.map_append, parseHeaderLines_field isField, ih areFields later,
        Function.update_of_ne (Ne.symm here)]

theorem parseHeaderLines_before (wf : ∀ field ∈ fields, field.WellFormed) :
    ∃ headers' lastKey', parseHeaderLines headers lastKey
        ((fields.flatMap Field.lines).map (· ++ [Bytes.cr]) ++ more) =
      parseHeaderLines headers' lastKey' more := by
  induction fields generalizing headers lastKey with
  | nil => exact ⟨headers, lastKey, rfl⟩
  | cons field fields ih =>
      obtain ⟨isField, areFields⟩ := List.forall_mem_cons.mp wf
      rw [List.flatMap_cons, List.map_append, List.append_assoc, parseHeaderLines_field isField]
      exact ih areFields

theorem parseHeaders_field {before after : List Field} {body : Bytes}
    (wf : ∀ field' ∈ before ++ field :: after, field'.WellFormed)
    (last : ∀ field' ∈ after, field'.key ≠ field.key) :
    parseHeaders (fieldMessage (before ++ field :: after) body) field.key =
      some (seen field.raw ++ [Bytes.cr]) := by
  obtain ⟨beforeWf, rest⟩ := List.forall_mem_append.mp wf
  obtain ⟨fieldWf, afterWf⟩ := List.forall_mem_cons.mp rest
  have clean : ∀ line ∈ (before ++ field :: after).flatMap Field.lines, Bytes.lf ∉ line := by
    intro line member
    obtain ⟨field', there, inside⟩ := List.mem_flatMap.mp member
    exact (wf field' there).clean line inside
  rw [fieldMessage, parseHeaders_block clean, parseHeaders, getlines_crlfLines clean,
    List.flatMap_append, List.map_append]
  obtain ⟨headers', lastKey', read⟩ := @parseHeaderLines_before (fun _ => none) [] before
    (((field :: after).flatMap Field.lines).map (· ++ [Bytes.cr])) beforeWf
  rw [read, List.flatMap_cons, List.map_append, parseHeaderLines_field fieldWf,
    parseHeaderLines_others afterWf last, Function.update_self]

end Fields

/-! ## The parameter -/

/-- What a quoted string is made of. -/
inductive Item where
  | plain (c : UInt8)
  /-- A character behind a backslash. -/
  | pair (c : UInt8)
  /-- A line end before white space. -/
  | fold (blank : UInt8)
  deriving DecidableEq

namespace Item

def text : Item → Bytes
  | .plain c => [c]
  | .pair c => [backslash, c]
  | .fold blank => [Bytes.cr, Bytes.lf, blank]

def value : Item → Bytes
  | .plain c => [c]
  | .pair c => [c]
  | .fold blank => [blank]

def WellFormed : Item → Prop
  | .plain c => c ≠ quote ∧ c ≠ backslash ∧ c ≠ Bytes.cr ∧ c ≠ Bytes.lf
  | .pair c => c ≠ Bytes.cr ∧ c ≠ Bytes.lf
  | .fold blank => Field.isBlank blank

def Plain : Item → Prop
  | .plain _ => True
  | _ => False

end Item

/-- A value of the parameter. -/
inductive NameText where
  | token (text : Bytes)
  | quoted (items : List Item)
  deriving DecidableEq

namespace NameText

def written : NameText → Bytes
  | .token text => text
  | .quoted items => quote :: items.flatMap Item.text ++ [quote]

def value : NameText → Bytes
  | .token text => text
  | .quoted items => items.flatMap Item.value

def WellFormed : NameText → Prop
  | .token text => text ≠ [] ∧ ∀ c ∈ text, IsToken c
  | .quoted items => ∀ item ∈ items, item.WellFormed

/-- In quotes, and nothing in them is escaped or folded. -/
def Verbatim : NameText → Prop
  | .token _ => False
  | .quoted items => ∀ item ∈ items, item.Plain

end NameText

/-- The text of a disposition, with the parameter somewhere in it. -/
structure Disposition where
  before : Bytes
  parameter : Bytes
  gap : Bytes
  gap' : Bytes
  name : NameText
  after : Bytes

namespace Disposition

def text (d : Disposition) : Bytes :=
  d.before ++ (d.parameter ++ d.gap ++ [Bytes.equals] ++ d.gap' ++ (d.name.written ++ d.after))

/-- Other parameters and comments end in front of it, and begin behind it. -/
structure WellFormed (d : Disposition) : Prop where
  before : ∀ c, d.before.getLast? = some c → c ∈ ascii ";)" ∨ Bytes.isSpace c = true
  after : ∀ c, d.after.head? = some c → c ∈ ascii ";(" ∨ Bytes.isSpace c = true
  parameter : Bytes.toLower d.parameter = ascii "filename"
  gap : ∀ c ∈ d.gap, Bytes.isSpace c = true
  gap' : ∀ c ∈ d.gap', Bytes.isSpace c = true
  name : d.name.WellFormed

/-- The parameter is the first `filename=` in the text. -/
structure Leading (d : Disposition) : Prop where
  parameter : d.parameter = ascii "filename"
  gap : d.gap = []
  gap' : d.gap' = []
  before : find (ascii "filename=") (seen d.before) = none

end Disposition

/-- Behind the first `filename=` of the text stands the name, between quotes. -/
def Shows (text name : Bytes) : Prop :=
  match find (ascii "filename=") text with
  | none => name = []
  | some hit => quote ∉ name ∧ quote :: name ++ [quote] <+: hit.drop 9

/-- The name is found, and the policy rejects an executable by it. -/
def MimePart.Names (part : MimePart) (name : Bytes) : Prop :=
  part.filename = name ∧
    ∀ (a : Policy.AttachmentMeta) attachments, a.filename = part.filename →
      Policy.AttachmentPolicy.isExecutable name = true →
        (Policy.AttachmentPolicy.evaluate (a :: attachments)).verdict = .reject

section Names

variable {part : MimePart} {text name rest : Bytes} {d : Disposition} {items : List Item}

theorem names_iff : part.Names name ↔ part.filename = name := by
  refine ⟨fun names => names.1, ?_⟩
  rintro rfl
  refine ⟨rfl, fun a attachments same executable => ?_⟩
  rw [Policy.evaluate_cons, if_pos (.inl (same ▸ executable))]

theorem takeWhile_quote_iff (behind : Bytes.cr ∉ name) (ended : rest.getLast? = some Bytes.cr) :
    rest.takeWhile (· != quote) = name ↔ quote ∉ name ∧ name ++ [quote] <+: rest := by
  constructor
  · rintro rfl
    have stops : quote ∉ rest.takeWhile (· != quote) := fun inside => by
      simpa using List.mem_takeWhile_imp inside
    refine ⟨stops, ?_⟩
    cases left : rest.dropWhile (· != quote) with
    | nil =>
        -- there is no quote, and the carriage return at the end belongs to the name
        have whole := List.takeWhile_append_dropWhile (p := (· != quote)) (l := rest)
        rw [left, List.append_nil] at whole
        rw [whole] at behind
        exact absurd (List.mem_of_getLast? ended) behind
    | cons c later =>
        have isQuote : c = quote := by
          have first := List.head_dropWhile_not (· != quote) (l := rest) (by simp [left])
          simpa [left] using first
        refine ⟨later, ?_⟩
        conv_rhs => rw [← List.takeWhile_append_dropWhile (p := (· != quote)) (l := rest), left, isQuote]
        simp
  · rintro ⟨clean, later, rfl⟩
    rw [List.append_assoc, List.takeWhile_append_of_pos (Bytes.bne_of_not_mem clean)]
    simp

/-- The name is what the header shows, given the carriage return at its end. -/
theorem filename_iff_shows
    (header : part.headers (ascii "content-disposition") = some (text ++ [Bytes.cr]))
    (clean : Bytes.cr ∉ name) : part.filename = name ↔ Shows text name := by
  have noReturn : Bytes.cr ∉ ascii "filename=" := by decide
  unfold MimePart.filename Shows
  rw [header]
  dsimp only
  cases found : find (ascii "filename=") text with
  | none =>
      rw [Bytes.find_past found noReturn]
      exact eq_comm
  | some hit =>
      rw [Bytes.find_extend found]
      obtain ⟨⟨rest, rfl⟩, -⟩ := Bytes.find_suffix found
      have behind : (ascii "filename=" ++ rest ++ [Bytes.cr]).drop 9 = rest ++ [Bytes.cr] := by
        simp [ascii]
      have shown : (ascii "filename=" ++ rest).drop 9 = rest := by simp [ascii]
      have short : quote :: name ++ [quote] <+: rest ++ [Bytes.cr] ↔ quote :: name ++ [quote] <+: rest :=
        ⟨Bytes.prefix_before (by simp [clean]; decide),
          fun starts => starts.trans (List.prefix_append rest _)⟩
      dsimp only
      rw [behind, shown, ← short]
      by_cases quoted : (rest ++ [Bytes.cr]).head? = some quote
      · cases rest with
        | nil => exact absurd quoted (by decide)
        | cons c rest =>
            obtain rfl : c = quote := by simpa using quoted
            rw [if_pos quoted, List.drop_one, List.cons_append, List.tail_cons,
              takeWhile_quote_iff clean List.getLast?_concat, List.cons_append, List.cons_prefix_cons]
            simp
      · rw [if_neg quoted]
        refine iff_of_false ?_ ?_
        · rintro rfl
          simp at clean
        · rintro ⟨-, later, same⟩
          rw [← same] at quoted
          simp at quoted

theorem Item.seen_value (wf : ∀ item ∈ items, item.WellFormed) :
    ∀ item ∈ items, item.Plain → seen item.text = item.value := by
  intro item member plain
  cases item with
  | plain c => exact seen_clean (by simpa [Item.text, eq_comm] using (wf _ member).2.2.2)
  | pair c => exact plain.elim
  | fold blank => exact plain.elim

theorem Item.value_lt : ∀ item : Item, ¬ item.Plain → item.value.length < (seen item.text).length
  | .plain _, special => absurd trivial special
  | .pair _, _ => by simp [Item.value, seen, Item.text]
  | .fold _, _ => by simp [Item.value, seen, Item.text]

theorem Field.isBlank_ne {c d : UInt8} (blank : Field.isBlank c) (other : ¬ Field.isBlank d) : c ≠ d :=
  fun same => other (same ▸ blank)

theorem Item.quote_seen {item : Item} (wf : item.WellFormed) :
    quote ∈ seen item.text ↔ quote ∈ item.value := by
  have special : quote ≠ backslash ∧ quote ≠ Bytes.cr ∧ quote ≠ Bytes.space := by decide
  cases item with
  | plain c => rw [seen_clean (by simpa [Item.text, eq_comm] using wf.2.2.2), Item.text, Item.value]
  | pair c =>
      have clean : Bytes.lf ∉ [backslash, c] := by
        simpa [eq_comm] using And.intro (by decide : Bytes.lf ≠ backslash) wf.2
      rw [Item.text, seen_clean clean, Item.value]
      simp [special]
  | fold blank =>
      have notLf : blank ≠ Bytes.lf := Field.isBlank_ne wf (by decide)
      have shown : seen (crlf ++ [blank]) = [Bytes.cr, Bytes.space] ++ [blank] := by
        rw [seen_append, seen_crlf, seen_clean (by simpa [eq_comm] using notLf)]
      change quote ∈ seen (crlf ++ [blank]) ↔ quote ∈ [blank]
      rw [shown]
      simp [special]

theorem NameText.value_clean {name : NameText} (wf : name.WellFormed) : Bytes.cr ∉ name.value := by
  cases name with
  | token text => exact fun inside => absurd (wf.2 _ inside) (by decide)
  | quoted items =>
      intro inside
      obtain ⟨item, member, inside⟩ := List.mem_flatMap.mp inside
      have isItem := wf item member
      cases item with
      | plain c => exact isItem.2.2.1 (List.mem_singleton.mp inside).symm
      | pair c => exact isItem.1 (List.mem_singleton.mp inside).symm
      | fold blank =>
          obtain rfl := List.mem_singleton.mp inside
          exact absurd isItem (by decide : ¬ Field.isBlank Bytes.cr)

theorem quoted_shown_iff (wf : ∀ item ∈ items, item.WellFormed) :
    (quote ∉ items.flatMap Item.value ∧ quote :: items.flatMap Item.value ++ [quote] <+:
        quote :: items.flatMap (fun item => seen item.text) ++ [quote] ++ rest) ↔
      ∀ item ∈ items, item.Plain := by
  have quotes : quote ∈ items.flatMap (fun item => seen item.text) ↔
      quote ∈ items.flatMap Item.value := by
    simp only [List.mem_flatMap]
    exact exists_congr fun item => and_congr_right fun member => Item.quote_seen (wf item member)
  have same := Spelling.flatMap_eq_iff_forall Item.Plain (Item.seen_value wf)
    fun item _ special => Item.value_lt item special
  rw [← same]
  constructor
  · rintro ⟨clean, later, whole⟩
    have shown : items.flatMap Item.value ++ quote :: later =
        items.flatMap (fun item => seen item.text) ++ quote :: rest := by
      simpa using whole
    have first := Bytes.cut_append clean later
    rw [shown, Bytes.cut_append (quotes.not.mpr clean)] at first
    exact (Prod.mk.inj (Option.some.inj first)).1
  · intro shown
    have clean : quote ∉ items.flatMap Item.value := by
      rw [← quotes, List.mem_flatMap]
      rintro ⟨item, member, inside⟩
      have isPlain := (same.mp shown) item member
      have isItem := wf item member
      cases item with
      | plain c =>
          rw [Item.quote_seen isItem] at inside
          exact isItem.1 (List.mem_singleton.mp inside).symm
      | pair c => exact isPlain
      | fold blank => exact isPlain
    rw [shown]
    exact ⟨clean, List.prefix_append _ _⟩

/-- A parameter that comes first is read exactly if it stands in quotes as it is. -/
theorem Disposition.Leading.shows_iff (leading : d.Leading) (wf : d.name.WellFormed) :
    Shows (seen d.text) d.name.value ↔ d.name.Verbatim := by
  have unmarked : Bytes.equals ∉ ascii "filename" := by decide
  have parts : seen d.text =
      seen d.before ++ (ascii "filename" ++ [Bytes.equals] ++ (seen d.name.written ++ seen d.after)) := by
    rw [Disposition.text, leading.parameter, leading.gap, leading.gap']
    simp only [seen_append, List.append_nil]
    rfl
  have found : find (ascii "filename=") (seen d.text) =
      some (ascii "filename" ++ [Bytes.equals] ++ (seen d.name.written ++ seen d.after)) := by
    rw [parts]
    exact Bytes.find_ending unmarked leading.before _
  have behind : (ascii "filename" ++ [Bytes.equals] ++ (seen d.name.written ++ seen d.after)).drop 9 =
      seen d.name.written ++ seen d.after := by simp [ascii]
  unfold Shows
  rw [found]
  dsimp only
  rw [behind]
  cases spelled : d.name with
  | token text =>
      rw [spelled] at wf
      obtain ⟨c, text, rfl⟩ := List.exists_cons_of_ne_nil wf.1
      have notQuote : c ≠ quote := by
        rintro rfl
        exact absurd (wf.2 quote List.mem_cons_self) (by decide)
      have notLf : c ≠ Bytes.lf := by
        rintro rfl
        exact absurd (wf.2 Bytes.lf List.mem_cons_self) (by decide)
      simp [NameText.written, NameText.Verbatim, seen, notLf, Ne.symm notQuote]
  | quoted items =>
      rw [spelled] at wf
      have written : seen (NameText.quoted items).written =
          quote :: items.flatMap (fun item => seen item.text) ++ [quote] := by
        have middle : seen (items.flatMap Item.text) = items.flatMap fun item => seen item.text :=
          List.map_flatMap
        rw [NameText.written, seen_append, ← List.singleton_append, seen_append, middle]
        rfl
      rw [written]
      exact quoted_shown_iff wf

/-- The name of an attachment is found exactly if the header shows it in quotes behind its first
`filename=`. Of a parameter that comes first this is so if it is quoted and nothing in it is escaped
or folded, and never without quotes. -/
theorem filename_iff {before after : List Field} {field : Field} {body : Bytes}
    (wf : ∀ field' ∈ before ++ field :: after, field'.WellFormed)
    (last : ∀ field' ∈ after, field'.key ≠ field.key)
    (isDisposition : field.key = ascii "content-disposition") (reads : field.raw = d.text)
    (isText : d.WellFormed)
    (parsed : part.headers = parseHeaders (fieldMessage (before ++ field :: after) body)) :
    (part.Names d.name.value ↔ Shows (seen d.text) d.name.value) ∧
      (d.Leading → (part.Names d.name.value ↔ d.name.Verbatim)) := by
  have header : part.headers (ascii "content-disposition") = some (seen d.text ++ [Bytes.cr]) := by
    rw [parsed, ← isDisposition, parseHeaders_field wf last, reads]
  have shown : part.Names d.name.value ↔ Shows (seen d.text) d.name.value := by
    rw [names_iff, filename_iff_shows header (NameText.value_clean isText.name)]
  exact ⟨shown, fun leading => shown.trans (leading.shows_iff isText.name)⟩

def quotedName : Disposition where
  before := ascii " attachment; "
  parameter := ascii "filename"
  gap := []
  gap' := []
  name := .quoted ((ascii "a.exe").map .plain)
  after := []

def quotedField : Field := ⟨ascii "Content-Disposition", quotedName.text, []⟩

/-- A header with the name `"a.exe"`. -/
theorem filename_quoted :
    (⟨parseHeaders (fieldMessage [quotedField] []), [], []⟩ : MimePart).Names (ascii "a.exe") := by
  have isField : ∀ field' ∈ [] ++ quotedField :: [], field'.WellFormed := by
    intro field member
    obtain rfl := List.mem_singleton.mp member
    refine ⟨by decide, ⟨67, ascii "ontent-Disposition", by decide, by decide⟩, ?_, by decide⟩
    intro line none_
    cases none_
  have isText : quotedName.WellFormed := by
    refine ⟨?_, ?_, by decide, by simp [quotedName], by simp [quotedName], ?_⟩
    · intro c ends
      obtain rfl : Bytes.space = c := Option.some.inj ends
      exact .inr rfl
    · intro c none_
      cases none_
    · intro item member
      obtain ⟨c, inside, rfl⟩ := List.mem_map.mp member
      have all : ∀ c ∈ ascii "a.exe", c ≠ quote ∧ c ≠ backslash ∧ c ≠ Bytes.cr ∧ c ≠ Bytes.lf := by
        decide +kernel
      exact all c inside
  have leading : quotedName.Leading := ⟨rfl, rfl, rfl, by decide⟩
  refine ((@filename_iff _ quotedName [] [] quotedField [] isField (by simp) (by decide) (by simp [quotedField, Field.raw]) isText rfl).2 leading).mpr ?_
  intro item member
  obtain ⟨c, -, rfl⟩ := List.mem_map.mp member
  trivial

/-- Without quotes the name has the end of the line in it, and the policy lets the program pass. -/
theorem filename_unquoted :
    let part : MimePart := ⟨parseHeaders
      (ascii "Content-Disposition: attachment; filename=evil.exe\r\n\r\n"), [], []⟩
    part.filename = ascii "evil.exe\r" ∧
      (Policy.AttachmentPolicy.evaluate [⟨part.filename, ascii "image/png", false, false⟩]).verdict =
        .allow := by
  decide

end Names

end EmailServer.Mime
