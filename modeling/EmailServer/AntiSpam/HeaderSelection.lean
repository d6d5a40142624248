import EmailServer.Library.Occurrences
import EmailServer.AntiSpam.DkimCanon

/-! # Which header fields are selected

The names are taken from the end of the list, and each selects the lowest field of its
name, however often the name has been taken before. The k-th occurrence of a name is
meant to select the k-th field of the name from below, in the order of the list.
-/

namespace EmailServer.AntiSpam.DkimCanon

open EmailServer.Bytes

/-- The canonical forms of the fields of a name, in lower case, from below. -/
def fieldsOf (headers name : Bytes) : List Bytes :=
  (unfoldLines headers).reverse.filterMap (canonicalField name)

/-- The selection of the DKIM standard: for the k-th occurrence of a name the k-th field of this
    name from below, and nothing when there are fewer. -/
def rfcSelection (headers : Bytes) (headerNames : List Bytes) : List Bytes :=
  (ranked [] (headerNames.map toLower)).filterMap fun occurrence =>
    (fieldsOf headers occurrence.1)[occurrence.2]?

/-- The names of the list, in lower case, that the block has fields of. -/
def presentNames (headers : Bytes) (headerNames : List Bytes) : List Bytes :=
  (headerNames.map toLower).filter fun name => !(fieldsOf headers name).isEmpty

/-- The name of a canonical field. -/
def fieldName (field : Bytes) : Bytes := field.takeWhile (· != colon)

variable {headers name field : Bytes} {headerNames : List Bytes}

theorem colon_toLower (clean : colon ∉ name) : colon ∉ toLower name := by
  intro member
  obtain ⟨c, inName, lower⟩ := List.mem_map.mp member
  exact clean (lowerByte_other (by decide) lower ▸ inName)

theorem fieldsOf_name (member : field ∈ fieldsOf headers name) : fieldName field = name := by
  obtain ⟨line, _, canonical⟩ := List.mem_filterMap.mp member
  unfold canonicalField at canonical
  split at canonical
  · cases canonical
  · rename_i before value parts
    split at canonical
    · rename_i same
      obtain rfl := Option.some.inj canonical
      have stop := bne_of_not_mem (colon_toLower (cut_clean parts))
      rw [fieldName, List.takeWhile_append_of_pos stop, ← same]
      simp
    · cases canonical

theorem canonicalizeHeadersRelaxed_eq (headers : Bytes) (headerNames : List Bytes) :
    canonicalizeHeadersRelaxed headers headerNames =
      (presentNames headers headerNames).reverse.filterMap fun name =>
        (fieldsOf headers name)[0]? := by
  have selects : ∀ name, (unfoldLines headers).reverse.findSome? (canonicalField (toLower name)) =
      (fieldsOf headers (toLower name))[0]? := by
    intro name
    rw [← List.head?_filterMap, fieldsOf, List.head?_eq_getElem?]
  simp only [canonicalizeHeadersRelaxed, selects]
  rw [presentNames, ← List.filter_reverse, ← List.map_reverse, List.filterMap_filter,
    List.filterMap_map]
  congr 1
  funext name
  cases fields : fieldsOf headers (toLower name) <;> simp [fields]

/-- The selection is that of the standard if and only if the names that have fields read the
    same backwards, and when one is listed several times, the fields that its occurrences
    ask for are there and are alike. -/
theorem selection_iff : canonicalizeHeadersRelaxed headers headerNames = rfcSelection headers headerNames ↔
    (presentNames headers headerNames).reverse = presentNames headers headerNames ∧
      ∀ name ∈ presentNames headers headerNames,
        ∀ k < (presentNames headers headerNames).count name,
          (fieldsOf headers name)[k]? = (fieldsOf headers name)[0]? := by
  have absent : ∀ name, (!(fieldsOf headers name).isEmpty) = false →
      ∀ k : Nat, (fieldsOf headers name)[k]? = none := by
    intro name missing k
    have empty : fieldsOf headers name = [] := by simpa using missing
    simp [empty]
  have own : ∀ name, ∀ field ∈ fieldsOf headers name, fieldName field = name :=
    fun _ _ member => fieldsOf_name member
  have present : ∀ name ∈ presentNames headers headerNames, fieldsOf headers name ≠ [] := by
    intro name member
    simpa using (List.mem_filter.mp member).2
  rw [canonicalizeHeadersRelaxed_eq, rfcSelection, ranked_filter absent]
  exact first_eq_ranked_iff own present

/-- Two names of the list are answered in the opposite order. -/
theorem names_answered_backwards :
    canonicalizeHeadersRelaxed (ascii "From: a\r\nTo: b\r\n") [ascii "From", ascii "To"] =
      [ascii "to:b", ascii "from:a"] ∧
    rfcSelection (ascii "From: a\r\nTo: b\r\n") [ascii "From", ascii "To"] =
      [ascii "from:a", ascii "to:b"] ∧
    [ascii "to:b", ascii "from:a"] ≠ [ascii "from:a", ascii "to:b"] :=
  ⟨by decide +kernel, by decide +kernel, by decide⟩

end EmailServer.AntiSpam.DkimCanon
