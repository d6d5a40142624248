import EmailServer.AntiSpam.DkimAgreement

/-! # The tags of a signature

`getTag` searches the whole header for the name and an equals sign. What it finds first can
be the end of a longer name, or be inside a value.
-/

namespace EmailServer.AntiSpam

open EmailServer.Bytes

def IsTagName (name : Bytes) : Prop := IsWord name ∧ equals ∉ name ∧ semicolon ∉ name

instance (name : Bytes) : Decidable (IsTagName name) := inferInstanceAs (Decidable (_ ∧ _))

/-- A tag as it is written, with the spaces on both sides of it. -/
structure WrittenTag where
  before : Bytes
  name : Bytes
  value : Bytes
  after : Bytes
  blank : ∀ c ∈ before ++ after, isSpace c = true
  isName : IsTagName name
  single : semicolon ∉ value

namespace WrittenTag

/-- What stands behind the equals sign. -/
def rest (tag : WrittenTag) : Bytes := tag.value ++ tag.after

def text (tag : WrittenTag) : Bytes := tag.before ++ tag.name ++ equals :: tag.rest

/-- The name `t` stands before an equals sign in the tag. -/
def Mentions (t : Bytes) (tag : WrittenTag) : Prop := t <:+ tag.name ∨ t ++ [equals] <:+: tag.rest

instance (t : Bytes) (tag : WrittenTag) : Decidable (tag.Mentions t) :=
  inferInstanceAs (Decidable (_ ∨ _))

end WrittenTag

/-- The value of a header. -/
def tagList (tags : List WrittenTag) : Bytes := [semicolon].intercalate (tags.map WrittenTag.text)

/-- The value of the tag that has the name, empty if there is none. -/
def tagValue (tags : List WrittenTag) (t : Bytes) : Bytes :=
  ((tags.find? (·.name = t)).map WrittenTag.value).getD []

/-- The first tag that mentions the name has the name, and no space behind its value. Or
    another one does, and by chance the value of the name stands behind the equals sign. -/
def FoundFirst (tags : List WrittenTag) (t : Bytes) : Prop :=
  match tags.find? (·.Mentions t) with
  | none => True
  | some tag =>
      if tag.name = t then tag.after = []
      else if t <:+ tag.name then tag.rest = tagValue tags t
      else find (t ++ [equals]) tag.rest = some (t ++ [equals] ++ tagValue tags t)

section Search

variable {tag : WrittenTag} {tags : List WrittenTag} {t v : Bytes}

theorem WrittenTag.text_single (tag : WrittenTag) : semicolon ∉ tag.text := by
  have blank : semicolon ∉ tag.before ++ tag.after := fun member =>
    absurd (tag.blank semicolon member) (by decide)
  rw [List.mem_append, not_or] at blank
  have other : semicolon ≠ equals := by decide
  simp [text, rest, blank.1, blank.2, tag.isName.2.2, tag.single, other]

/-- The first place in a tag where the name stands before an equals sign. -/
theorem WrittenTag.find_text (isName : IsTagName t) :
    find (t ++ [equals]) tag.text =
      if t <:+ tag.name then some (t ++ equals :: tag.rest) else find (t ++ [equals]) tag.rest := by
  have blank : ∀ c ∈ tag.before, isSpace c = true := fun c member =>
    tag.blank c (List.mem_append_left _ member)
  have clean : equals ∉ tag.before ++ tag.name := by
    rw [List.mem_append, not_or]
    exact ⟨fun member => absurd (blank equals member) (by decide), tag.isName.2.1⟩
  have ends : t <:+ tag.before ++ tag.name ↔ t <:+ tag.name := by
    constructor
    · intro ends
      rcases List.suffix_or_suffix_of_suffix ends (List.suffix_append tag.before tag.name) with
        within | ⟨spaces, rfl⟩
      · exact within
      · -- what is before the name consists of spaces, and the name has none
        have inside : spaces <:+ tag.before := by
          obtain ⟨front, same⟩ := ends
          rw [← List.append_assoc] at same
          exact ⟨front, List.append_cancel_right same⟩
        cases spaces with
        | nil => exact List.suffix_rfl
        | cons c spaces =>
            have isBlank := blank c (inside.subset List.mem_cons_self)
            have plain := isName.1.2 c List.mem_cons_self
            rw [isBlank] at plain
            cases plain
    · exact fun ends => ends.trans (List.suffix_append tag.before tag.name)
  rw [text, find_marked isName.2.1 clean]
  simp only [ends]

theorem tagList_cons (tag : WrittenTag) (tags : List WrittenTag) :
    tagList (tag :: tags) = if tags = [] then tag.text else tag.text ++ semicolon :: tagList tags := by
  cases tags with
  | nil => simp [tagList, List.intercalate]
  | cons next tags => simp [tagList, List.intercalate_cons_cons]

theorem getTag_mentioned (found : find (t ++ [equals]) tag.text = some (t ++ [equals] ++ v)) :
    getTag (tagList (tag :: tags)) t = v := by
  have single : semicolon ∉ v := fun member =>
    tag.text_single ((find_suffix found).2.subset (List.mem_append_right _ member))
  rw [tagList_cons]
  split
  · exact getTag_last single found
  · have longer := find_extend found (semicolon :: tagList tags)
    rw [List.append_assoc] at longer
    exact getTag_value single longer

theorem getTag_unmentioned (isName : IsTagName t) (absent : find (t ++ [equals]) tag.text = none) :
    getTag (tagList (tag :: tags)) t = getTag (tagList tags) t := by
  have stops : semicolon ∉ t ++ [equals] := by
    have other : semicolon ≠ equals := by decide
    simp [isName.2.2, other]
  rw [tagList_cons]
  split
  · rename_i last
    have nothing : find (t ++ [equals]) (tagList []) = none := by simp [tagList, List.intercalate, find]
    rw [last, getTag, getTag, absent, nothing]
  · rw [getTag, getTag, find_past absent stops]

end Search

/-- A tag is read with its value, or as the empty text if it is not there, if and only if
    nothing before it mentions its name and no space follows. -/
theorem getTag_iff (tags : List WrittenTag) {t : Bytes} (isName : IsTagName t) :
    getTag (tagList tags) t = tagValue tags t ↔ FoundFirst tags t := by
  induction tags with
  | nil => simp [FoundFirst, tagList, tagValue, getTag, List.intercalate, find]
  | cons tag tags ih =>
      have search := @WrittenTag.find_text tag t isName
      by_cases mentions : tag.Mentions t
      · have first : (tag :: tags).find? (·.Mentions t) = some tag := by simp [mentions]
        simp only [FoundFirst, first]
        by_cases ends : t <:+ tag.name
        · rw [if_pos ends] at search
          have read := @getTag_mentioned tag tags t tag.rest (by simpa using search)
          rw [read]
          by_cases same : tag.name = t
          · have value : tagValue (tag :: tags) t = tag.value := by simp [tagValue, same]
            rw [if_pos same, value, WrittenTag.rest, List.append_right_eq_self]
          · rw [if_neg same, if_pos ends]
        · have other : tag.name ≠ t := fun same => ends (same ▸ List.suffix_rfl)
          rw [if_neg ends] at search
          rw [if_neg other, if_neg ends]
          obtain ⟨hit, found⟩ := Option.isSome_iff_exists.mp
            (find_isSome_iff.mpr (mentions.resolve_left ends))
          obtain ⟨v, rfl⟩ := (find_suffix found).1
          rw [getTag_mentioned (search.trans found), found]
          simp
      · have absent : find (t ++ [equals]) tag.text = none := by
          obtain ⟨ends, inside⟩ := not_or.mp mentions
          rw [search, if_neg ends]
          exact find_eq_none_iff.mpr inside
        have other : tag.name ≠ t := fun same => mentions (.inl (same ▸ List.suffix_rfl))
        have value : tagValue (tag :: tags) t = tagValue tags t := by simp [tagValue, other]
        have later : (tag :: tags).find? (·.Mentions t) = tags.find? (·.Mentions t) := by
          simp [mentions]
        rw [getTag_unmentioned isName absent, value, ih]
        simp only [FoundFirst, later, value]

/-- `bh=abc; h=from` -/
def bodyHashFirst : List WrittenTag :=
  [⟨[], ascii "bh", ascii "abc", [], by simp, by decide, by decide⟩,
    ⟨ascii " ", ascii "h", ascii "from", [], List.all_eq_true.mp (by decide), by decide, by decide⟩]

/-- The hash of the body is taken for the names of the header fields. -/
theorem getTag_body_hash : (bodyHashFirst.map WrittenTag.name).Nodup ∧
    tagValue bodyHashFirst (ascii "h") = ascii "from" ∧
    getTag (tagList bodyHashFirst) (ascii "h") = ascii "abc" := by
  decide +kernel

/-- The other tag is read with its value. -/
theorem getTag_iff_bh :
    getTag (tagList bodyHashFirst) (ascii "bh") = tagValue bodyHashFirst (ascii "bh") ↔
      FoundFirst bodyHashFirst (ascii "bh") :=
  getTag_iff bodyHashFirst (by decide)

end EmailServer.AntiSpam
