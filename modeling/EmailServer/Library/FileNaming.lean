import EmailServer.Library.LexicalPath
import EmailServer.Library.TextSearch

/-! # How paths name files

The calls of an operating system take a path up to its first NUL, and different paths can
name one file: after normalisation, without regard to case, or because of what a name
ends in. A `Naming` gives every path the place that it names. A file has no streams beside
its content.
-/

namespace EmailServer

/-! ## The path that a call sees -/

namespace FsPath

/-- Calls see the path as it is. -/
def NulFree (p : FsPath) : Prop := 0 ∉ p.rootName ∧ ∀ part ∈ p.parts, 0 ∉ part

instance (p : FsPath) : Decidable p.NulFree := inferInstanceAs (Decidable (_ ∧ _))

def upToNul (text : Bytes) : Bytes := text.takeWhile (· != 0)

/-- The components up to the first NUL. -/
def cutParts : List Bytes → List Bytes
  | [] => []
  | part :: rest =>
      if 0 ∈ part then if upToNul part = [] then [] else [upToNul part]
      else part :: cutParts rest

theorem cutParts_self {parts : List Bytes} (clean : ∀ part ∈ parts, 0 ∉ part) :
    cutParts parts = parts := by
  induction parts with
  | nil => rfl
  | cons part rest ih =>
      obtain ⟨here, later⟩ := List.forall_mem_cons.mp clean
      rw [cutParts, if_neg here, ih later]

theorem cutParts_append {parts : List Bytes} (more : List Bytes) (nul : ∃ part ∈ parts, 0 ∈ part) :
    cutParts (parts ++ more) = cutParts parts := by
  induction parts with
  | nil => simp at nul
  | cons part rest ih =>
      rw [List.cons_append, cutParts, cutParts]
      by_cases here : 0 ∈ part
      · rw [if_pos here, if_pos here]
      · have later : ∃ part ∈ rest, 0 ∈ part := by simpa [here] using nul
        rw [if_neg here, if_neg here, ih later]

theorem upToNul_append {text : Bytes} (more : Bytes) (nul : 0 ∈ text) :
    upToNul (text ++ more) = upToNul text := by
  induction text with
  | nil => simp at nul
  | cons c rest ih =>
      by_cases here : c = 0
      · simp [upToNul, here]
      · have later : 0 ∈ rest := by simpa [Ne.symm here] using nul
        simpa [upToNul, here] using ih later

theorem cutParts_lengthened (front : List Bytes) {part : Bytes} (more : Bytes) (nul : 0 ∈ part) :
    cutParts (front ++ [part ++ more]) = cutParts (front ++ [part]) := by
  induction front with
  | nil =>
      have longer : 0 ∈ part ++ more := List.mem_append_left more nul
      simp only [List.nil_append, cutParts, if_pos longer, if_pos nul, upToNul_append more nul]
  | cons first rest ih =>
      rw [List.cons_append, List.cons_append, cutParts, cutParts, ih]

theorem parts_of_filename {p : FsPath} {ending : Bytes} (long : 2 < ending.length)
    (ends : ending <:+ p.filename) : p.parts ≠ [] := by
  intro bare
  rw [filename, bare, List.getLastD_nil, List.suffix_nil] at ends
  simp [ends] at long

theorem nulFree_child {p : FsPath} {name : Bytes} :
    (p.child name).NulFree ↔ p.NulFree ∧ 0 ∉ name := by
  simp only [NulFree, child, List.forall_mem_append, List.forall_mem_singleton, and_assoc]

end FsPath

namespace PathSyntax

variable (syn : PathSyntax)

/-- The path that a call gets by `c_str()`. -/
def cString (p : FsPath) : FsPath :=
  if 0 ∈ p.rootName then syn.parse (FsPath.upToNul p.rootName)
  else { p with parts := FsPath.cutParts p.parts }

theorem cString_nulFree {p : FsPath} (nulFree : p.NulFree) : syn.cString p = p := by
  rw [cString, if_neg nulFree.1, FsPath.cutParts_self nulFree.2]

theorem parse_nulFree {text : Bytes} (clean : 0 ∉ text) : (syn.parse text).NulFree := by
  have whole := syn.split_whole text
  have rootName : (syn.splitRootName text).1 ⊆ text :=
    fun c member => whole ▸ List.mem_append_left _ member
  have rest : (syn.splitRootName text).2 ⊆ text :=
    fun c member => whole ▸ List.mem_append_right _ member
  refine ⟨fun nul => clean (rootName nul), fun part member nul => clean (rest ?_)⟩
  exact Bytes.splitOn_within (List.mem_filter.mp member).1 nul

theorem append_nulFree {p q : FsPath} (left : p.NulFree) (right : q.NulFree) :
    (syn.append p q).NulFree := by
  unfold append
  split
  · exact right
  split
  · exact ⟨left.1, right.2⟩
  · exact ⟨left.1, List.forall_mem_append.mpr ⟨left.2, right.2⟩⟩

/-- Calls see what they get. -/
theorem cString_clean (p : FsPath) : (syn.cString p).NulFree := by
  have cut : ∀ text, 0 ∉ FsPath.upToNul text := by
    intro text nul
    exact absurd (List.mem_takeWhile_imp nul) (by decide)
  have parts : ∀ parts, ∀ part ∈ FsPath.cutParts parts, 0 ∉ part := by
    intro parts
    induction parts with
    | nil => simp [FsPath.cutParts]
    | cons part rest ih =>
        intro other member
        rw [FsPath.cutParts] at member
        split at member
        · split at member
          · simp at member
          · exact List.mem_singleton.mp member ▸ cut part
        · rename_i clean
          rcases List.mem_cons.mp member with rfl | later
          · exact clean
          · exact ih other later
  unfold cString
  split
  · exact syn.parse_nulFree (cut _)
  · rename_i clean
    exact ⟨clean, parts _⟩

theorem cString_child {p : FsPath} (cut : ¬ p.NulFree) (name : Bytes) :
    syn.cString (p.child name) = syn.cString p := by
  by_cases rootName : 0 ∈ p.rootName
  · simp only [cString, FsPath.child, rootName, if_true]
  · have nul : ∃ part ∈ p.parts, 0 ∈ part := by
      simpa [FsPath.NulFree, rootName] using cut
    simp only [cString, FsPath.child, rootName, if_false, FsPath.cutParts_append [name] nul]

end PathSyntax

/-! ## The file that a path names -/

namespace FileName

/-- Spelled in one way only: digits, small letters and dots, the last of them no dot. -/
def Simple (name : Bytes) : Prop :=
  (∀ c ∈ name, Bytes.isPlain c = true ∧ Bytes.lowerByte c = c) ∧ name.getLast? ≠ some Bytes.dot

instance (name : Bytes) : Decidable (Simple name) :=
  let _ := List.decidableBAll (fun c => Bytes.isPlain c = true ∧ Bytes.lowerByte c = c) name
  inferInstanceAs (Decidable (_ ∧ _))

theorem Simple.nulFree {name : Bytes} (simple : Simple name) : 0 ∉ name :=
  fun nul => absurd (simple.1 0 nul).1 (by decide)

theorem Simple.append {front ending : Bytes} (nonempty : ending ≠ [])
    (clean : ∀ c ∈ front, Bytes.isPlain c = true ∧ Bytes.lowerByte c = c)
    (simple : Simple ending) : Simple (front ++ ending) := by
  refine ⟨List.forall_mem_append.mpr ⟨clean, simple.1⟩, ?_⟩
  rw [List.getLast?_append_of_ne_nil front nonempty]
  exact simple.2

/-- Nothing but letters and digits. -/
def Ordinary (name : Bytes) : Prop :=
  name ≠ [] ∧ ∀ c ∈ name, Bytes.isAlpha c = true ∨ Bytes.isDigit c = true

instance (name : Bytes) : Decidable (Ordinary name) :=
  let _ := List.decidableBAll (fun c => Bytes.isAlpha c = true ∨ Bytes.isDigit c = true) name
  inferInstanceAs (Decidable (_ ∧ _))

end FileName

/-- How a file system takes paths without a NUL. Entries with simple names have these names,
    and no file is taken for one with another simple ending. -/
structure Naming (syn : PathSyntax) where
  place : FsPath → FsPath
  place_place : ∀ p, place (place p) = place p
  place_nulFree : ∀ p, p.NulFree → (place p).NulFree
  place_child : ∀ p name, FileName.Ordinary p.filename → 2 < name.length → FileName.Simple name →
    place (p.child name) = (place p).child name
  place_ending : ∀ p ending, 2 < ending.length → FileName.Simple ending → ending <:+ p.filename →
    ending <:+ (place p).filename
  place_bare : ∀ p, p.parts = [] → (place p).parts = []
  place_root : ∀ p ending, FileName.Simple ending → p.parts = [] → ending <:+ p.rootName →
    ending <:+ (place p).rootName

namespace Naming

variable {syn : PathSyntax} (names : Naming syn)

/-- The file that a call gets at. -/
def locate (p : FsPath) : FsPath := names.place (syn.cString p)

variable {names}

theorem locate_nulFree {p : FsPath} (nulFree : p.NulFree) : names.locate p = names.place p := by
  rw [locate, syn.cString_nulFree nulFree]

theorem locate_place {p : FsPath} (nulFree : p.NulFree) :
    names.locate (names.place p) = names.place p := by
  rw [locate_nulFree (names.place_nulFree p nulFree), names.place_place]

theorem locate_cut {p : FsPath} (cut : ¬ p.NulFree) (name : Bytes) :
    names.locate (p.child name) = names.locate p := by
  rw [locate, locate, syn.cString_child cut]

theorem locate_child {p : FsPath} {name : Bytes} (nulFree : p.NulFree)
    (ordinary : FileName.Ordinary p.filename) (long : 2 < name.length)
    (simple : FileName.Simple name) :
    names.locate (p.child name) = (names.locate p).child name := by
  rw [locate_nulFree nulFree, locate_nulFree (FsPath.nulFree_child.mpr ⟨nulFree, simple.nulFree⟩),
    names.place_child p name ordinary long simple]

theorem locate_filename {p : FsPath} {ending : Bytes} (nulFree : p.NulFree)
    (long : 2 < ending.length) (simple : FileName.Simple ending) (ends : ending <:+ p.filename) :
    ending <:+ (names.locate p).filename := by
  rw [locate_nulFree nulFree]
  exact names.place_ending p ending long simple ends

theorem locate_lastName {p : FsPath} {ending : Bytes} (nulFree : p.NulFree)
    (long : 2 < ending.length) (simple : FileName.Simple ending) (ends : ending <:+ p.lastName) :
    ending <:+ (names.locate p).lastName := by
  by_cases bare : p.parts = []
  · rw [FsPath.lastName, if_pos bare] at ends
    rw [locate_nulFree nulFree, FsPath.lastName, if_pos (names.place_bare p bare)]
    exact names.place_root p ending simple bare ends
  · rw [FsPath.lastName, if_neg bare] at ends
    have there := @locate_filename _ names _ _ nulFree long simple ends
    rwa [FsPath.lastName, if_neg (FsPath.parts_of_filename long there)]

end Naming

/-! ## Moving a directory -/

namespace FsPath

/-- `p` is `top`, or in the directory `top`. -/
def Contains (top p : FsPath) : Prop :=
  top.rootName = p.rootName ∧ top.rootDir = p.rootDir ∧ top.parts <+: p.parts

instance (top p : FsPath) : Decidable (Contains top p) := inferInstanceAs (Decidable (_ ∧ _ ∧ _))

/-- Where that was which is at `p`, in `dst`, after `src` was moved there. -/
def origin (src dst p : FsPath) : FsPath :=
  { src with parts := src.parts ++ p.parts.drop dst.parts.length }

/-- The directory `src`, with all that is in it, has become `dst`. -/
def relocated {α : Type} (src dst : FsPath) (nothing : α) (content : FsPath → α) (p : FsPath) : α :=
  if dst.Contains p then content (origin src dst p)
  else if src.Contains p then nothing
  else content p

theorem contains_refl (p : FsPath) : p.Contains p := ⟨rfl, rfl, List.prefix_rfl⟩

section Relocated

variable {α : Type} {src dst p : FsPath} {nothing : α} {content : FsPath → α}

theorem relocated_origin (inside : dst.Contains p) :
    relocated src dst nothing content p = content (origin src dst p) := if_pos inside

theorem relocated_gone (outside : ¬ dst.Contains p) (inside : src.Contains p) :
    relocated src dst nothing content p = nothing := by
  rw [relocated, if_neg outside, if_pos inside]

theorem relocated_other (outside : ¬ dst.Contains p) (apart : ¬ src.Contains p) :
    relocated src dst nothing content p = content p := by
  rw [relocated, if_neg outside, if_neg apart]

end Relocated

theorem origin_lastName {src dst p : FsPath} {ending : Bytes} (inside : dst.Contains p)
    (source : ending <:+ src.lastName) (ends : ending <:+ p.lastName) :
    ending <:+ (origin src dst p).lastName := by
  obtain ⟨-, -, rest, split⟩ := inside
  have dropped : p.parts.drop dst.parts.length = rest := by rw [← split, List.drop_left]
  unfold origin
  rw [dropped]
  cases rest with
  | nil => simpa using source
  | cons first rest =>
      have here : p.parts ≠ [] := by simp [← split]
      rw [lastName, if_neg here, filename, ← split] at ends
      simpa [lastName, filename, List.getLast?_cons] using ends

end FsPath

/-! ## Two namings -/

namespace FsPath

theorem isName_of_long {name : Bytes} (long : 2 < name.length) : IsName name := by
  constructor <;> rintro rfl <;> exact absurd long (by decide)

theorem normal_filename {p : FsPath} (parts : p.parts ≠ []) (isName : IsName p.filename) :
    p.normal.filename = p.filename := by
  rw [← parent_child parts, child_filename, child_normal _ isName, child_filename]

theorem walk_nulFree {rooted : Bool} {stack : List Bytes} {part : Bytes} (here : 0 ∉ part)
    (clean : ∀ part ∈ stack, 0 ∉ part) : ∀ other ∈ walk rooted stack part, 0 ∉ other := by
  have up : 0 ∉ dotDot := by decide
  unfold walk
  split
  · exact clean
  split
  · cases stack with
    | nil => cases rooted <;> simp [up]
    | cons top below =>
        dsimp only
        split
        · exact List.forall_mem_cons.mpr ⟨up, clean⟩
        · exact fun other member => clean other (List.mem_cons_of_mem top member)
  · exact List.forall_mem_cons.mpr ⟨here, clean⟩

theorem normal_nulFree {p : FsPath} (nulFree : p.NulFree) : p.normal.NulFree := by
  have walked : ∀ (parts stack : List Bytes), (∀ part ∈ parts, 0 ∉ part) →
      (∀ part ∈ stack, 0 ∉ part) → ∀ part ∈ parts.foldl (walk p.rootDir) stack, 0 ∉ part := by
    intro parts
    induction parts with
    | nil => exact fun _ _ clean => clean
    | cons part rest ih =>
        intro stack parts clean
        obtain ⟨here, later⟩ := List.forall_mem_cons.mp parts
        exact ih _ later (walk_nulFree here clean)
  refine ⟨nulFree.1, fun part member => walked p.parts [] nulFree.2 (by simp) part ?_⟩
  exact List.mem_reverse.mp member

theorem normal_bare {p : FsPath} (bare : p.parts = []) : p.normal = p := by
  have none : normalParts p.rootDir p.parts = p.parts := by rw [bare]; rfl
  rw [normal, none]

/-- Spell the root name and every component by `f`. -/
def respell (f : Bytes → Bytes) (p : FsPath) : FsPath :=
  { p with rootName := f p.rootName, parts := p.parts.map f }

/-- Steps are respelled as steps, and names as names. -/
def KeepsSteps (f : Bytes → Bytes) : Prop :=
  ∀ part, (f part = dot ↔ part = dot) ∧ (f part = dotDot ↔ part = dotDot)

section Respelling

variable {f : Bytes → Bytes} (keeps : KeepsSteps f)

include keeps

theorem walk_respelled (rooted : Bool) (stack : List Bytes) (part : Bytes) :
    walk rooted (stack.map f) (f part) = (walk rooted stack part).map f := by
  have up : f dotDot = dotDot := (keeps dotDot).2.mpr rfl
  simp only [walk, (keeps part).1, (keeps part).2]
  split
  · rfl
  split
  · cases stack with
    | nil => cases rooted <;> simp [up]
    | cons top below =>
        simp only [List.map_cons, (keeps top).2]
        split <;> simp [up]
  · rfl

theorem normalParts_respelled (rooted : Bool) (parts : List Bytes) :
    normalParts rooted (parts.map f) = (normalParts rooted parts).map f := by
  have walked : ∀ (parts stack : List Bytes), (parts.map f).foldl (walk rooted) (stack.map f) =
      (parts.foldl (walk rooted) stack).map f := by
    intro parts
    induction parts with
    | nil => exact fun _ => rfl
    | cons part rest ih =>
        intro stack
        rw [List.map_cons, List.foldl_cons, List.foldl_cons, walk_respelled keeps, ih]
  rw [normalParts, normalParts, List.map_reverse, ← walked parts []]
  rfl

theorem normal_respelled (p : FsPath) : (p.respell f).normal = p.normal.respell f := by
  simp only [normal, respell, normalParts_respelled keeps]

end Respelling

theorem respell_child (f : Bytes → Bytes) (p : FsPath) (name : Bytes) :
    (p.child name).respell f = (p.respell f).child (f name) := by
  simp [respell, child]

theorem respell_filename (f : Bytes → Bytes) {p : FsPath} (parts : p.parts ≠ []) :
    (p.respell f).filename = f p.filename := by
  rw [← parent_child parts, respell_child, child_filename, child_filename]

end FsPath

namespace Naming

variable (syn : PathSyntax)

/-- Two paths name one file if they have the same normal form. -/
def lexical : Naming syn where
  place := FsPath.normal
  place_place := FsPath.normal_idem
  place_nulFree _ := FsPath.normal_nulFree
  place_child p _ _ long _ := FsPath.child_normal p (FsPath.isName_of_long long)
  place_ending p ending long _ ends := by
    rwa [FsPath.normal_filename (FsPath.parts_of_filename long ends)
      (FsPath.isName_of_long (lt_of_lt_of_le long ends.length_le))]
  place_bare p bare := by rwa [FsPath.normal_bare bare]
  place_root _ _ _ _ ends := ends

theorem toLower_keepsSteps : FsPath.KeepsSteps Bytes.toLower := by
  have single : ∀ c, Bytes.lowerByte c = Bytes.dot ↔ c = Bytes.dot :=
    fun c => ⟨Bytes.lowerByte_other (by decide), by rintro rfl; decide⟩
  have one : FsPath.dot = [Bytes.dot] := by decide
  have two : FsPath.dotDot = [Bytes.dot, Bytes.dot] := by decide
  intro part
  rw [one, two]
  refine ⟨?_, ?_⟩
  · match part with
    | [] | _ :: _ :: _ => simp [Bytes.toLower]
    | [c] => simp [Bytes.toLower, single]
  · match part with
    | [] | [_] | _ :: _ :: _ :: _ => simp [Bytes.toLower]
    | [c, d] => simp [Bytes.toLower, single]

theorem toLower_simple {name : Bytes} (simple : FileName.Simple name) :
    Bytes.toLower name = name := by
  have same : name.map Bytes.lowerByte = name.map id :=
    List.map_congr_left fun c member => (simple.1 c member).2
  rw [Bytes.toLower, same, List.map_id]

/-- The normal forms may differ in the case of letters. -/
def caseless : Naming syn where
  place p := p.normal.respell Bytes.toLower
  place_place p := by
    rw [FsPath.normal_respelled toLower_keepsSteps, FsPath.normal_idem]
    simp [FsPath.respell, Bytes.toLower, Bytes.lowerByte_lowered]
  place_nulFree p nulFree := by
    have clean : ∀ text : Bytes, 0 ∉ text → 0 ∉ Bytes.toLower text := by
      intro text clean nul
      obtain ⟨c, member, lower⟩ := List.mem_map.mp nul
      exact clean (Bytes.lowerByte_other (by decide) lower ▸ member)
    have normal := FsPath.normal_nulFree nulFree
    refine ⟨clean _ normal.1, fun part member => ?_⟩
    obtain ⟨original, there, rfl⟩ := List.mem_map.mp member
    exact clean _ (normal.2 original there)
  place_child p name _ long simple := by
    rw [FsPath.child_normal p (FsPath.isName_of_long long), FsPath.respell_child,
      toLower_simple simple]
  place_ending p ending long simple ends := by
    have parts := FsPath.parts_of_filename long ends
    have same := FsPath.normal_filename parts
      (FsPath.isName_of_long (lt_of_lt_of_le long ends.length_le))
    rw [FsPath.respell_filename _ (FsPath.parts_of_filename long (same ▸ ends)), same,
      ← toLower_simple simple]
    exact ends.map Bytes.lowerByte
  place_bare p bare := by
    rw [FsPath.normal_bare bare, FsPath.respell, bare, List.map_nil]
  place_root p ending simple _ ends := by
    rw [← toLower_simple simple]
    exact ends.map Bytes.lowerByte

end Naming

end EmailServer
