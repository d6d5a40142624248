import EmailServer.Library.Bytes
import EmailServer.Library.Substitution
import Mathlib.Data.List.Nodup

/-! # SPF macros

`SpfMacro::expand` replaces the macros and the escapes one after another, each in what the
replacements before it have left.
-/

namespace EmailServer.AntiSpam

open EmailServer.Bytes EmailServer.Substitution

/-- The first `skip` bytes still belong to what has been replaced. -/
def replaceAfter (f r : Bytes) : Nat → Bytes → Bytes
  | _, [] => []
  | skip + 1, _ :: rest => replaceAfter f r skip rest
  | 0, c :: rest =>
      if f.isPrefixOf (c :: rest) then r ++ replaceAfter f r (f.length - 1) rest
      else c :: replaceAfter f r 0 rest

/-- The search goes on behind what has been put in. -/
def replaceAll (s f r : Bytes) : Bytes := replaceAfter f r 0 s

namespace SpfMacro

def expand (input ip sender helo domain : Bytes) : Bytes :=
  let out := replaceAll input (ascii "%\x7bi\x7d") ip
  let out := replaceAll out (ascii "%\x7bs\x7d") sender
  let out := replaceAll out (ascii "%\x7bh\x7d") helo
  let out := replaceAll out (ascii "%\x7bd\x7d") domain
  let out := match cut 64 sender with
    | some (user, host) =>
        let out := replaceAll out (ascii "%\x7bl\x7d") user
        replaceAll out (ascii "%\x7bo\x7d") host
    | none => out
  let out := replaceAll out (ascii "%%") (ascii "%")
  let out := replaceAll out (ascii "%_") (ascii " ")
  replaceAll out (ascii "%-") (ascii "%20")

/-- The parts of the sender have no value without an `@`. -/
def senderParts (sender : Bytes) : List (Bytes × Bytes) :=
  match cut 64 sender with
  | some (user, host) => [(ascii "%\x7bl\x7d", user), (ascii "%\x7bo\x7d", host)]
  | none => []

/-- The macros and the escapes with their values. -/
def macros (ip sender helo domain : Bytes) : List (Bytes × Bytes) :=
  [(ascii "%\x7bi\x7d", ip), (ascii "%\x7bs\x7d", sender), (ascii "%\x7bh\x7d", helo),
    (ascii "%\x7bd\x7d", domain)] ++ senderParts sender ++
    [(ascii "%%", ascii "%"), (ascii "%_", ascii " "), (ascii "%-", ascii "%20")]

/-- One scan of the template, from left to right. -/
def scan (input ip sender helo domain : Bytes) : Bytes :=
  substitute (macros ip sender helo domain) input

/-- In the template with the values of the macros before it, each macro begins only where
    the scan reads it: not in a value, and not in another macro or escape. -/
def Undisturbed (input ip sender helo domain : Bytes) : Prop :=
  EachOnlyRead (pieces (macros ip sender helo domain) input) [] (macros ip sender helo domain)

instance (input ip sender helo domain : Bytes) :
    Decidable (Undisturbed input ip sender helo domain) :=
  inferInstanceAs (Decidable (EachOnlyRead _ _ _))

section Expansion

variable {input ip sender helo domain : Bytes}

theorem replaceAll_eq (s f r : Bytes) : replaceAll s f r = substitute [(f, r)] s := by
  have skipping : ∀ skip, replaceAfter f r skip s =
      (scanFrom [(f, r)] skip s).flatMap (shown [(f, r)]) := by
    induction s with
    | nil => intro skip; cases skip <;> rfl
    | cons c rest ih =>
        intro skip
        cases skip with
        | succ skip => exact ih skip
        | zero =>
            rw [replaceAfter, scanFrom, List.find?_cons]
            cases starts : f.isPrefixOf (c :: rest) with
            | true => simp [shown, ih]
            | false => simp [shown, ih]
  exact skipping 0

theorem expand_foldl : expand input ip sender helo domain =
    (macros ip sender helo domain).foldl (fun out entry => substitute [entry] out) input := by
  simp only [expand, macros, senderParts, replaceAll_eq]
  cases cut 64 sender with
  | none => simp only [List.append_nil, List.cons_append, List.nil_append, List.foldl_cons,
      List.foldl_nil]
  | some parts => simp only [List.cons_append, List.nil_append, List.foldl_cons, List.foldl_nil]

theorem macros_keys : ((macros ip sender helo domain).map Prod.fst).Nodup ∧
    ∀ key ∈ (macros ip sender helo domain).map Prod.fst, key ≠ [] := by
  unfold macros senderParts
  cases cut 64 sender with
  | none => simp only [List.append_nil, List.cons_append, List.nil_append, List.map_cons,
      List.map_nil]; decide
  | some parts => simp only [List.cons_append, List.nil_append, List.map_cons, List.map_nil]; decide

end Expansion

/-- A template that is not disturbed is expanded as by one scan. -/
theorem expand_scan {input ip sender helo domain : Bytes}
    (undisturbed : Undisturbed input ip sender helo domain) :
    expand input ip sender helo domain = scan input ip sender helo domain := by
  obtain ⟨distinct, nonempty⟩ := @macros_keys ip sender helo domain
  rw [expand_foldl, scan]
  refine foldl_substitute (fun entry member => ?_) (List.Nodup.of_map Prod.fst distinct) undisturbed
  exact nonempty entry.1 (List.mem_map.mpr ⟨entry, member, rfl⟩)

/-- `%{i} %%from %{o}` -/
theorem expand_scan_plain :
    expand (ascii "%\x7bi\x7d %%from %\x7bo\x7d") (ascii "192.0.2.1") (ascii "a@b.c") [] [] =
      scan (ascii "%\x7bi\x7d %%from %\x7bo\x7d") (ascii "192.0.2.1") (ascii "a@b.c") [] [] :=
  expand_scan (by decide +kernel)

/-- A sender is scanned again, and an escape is put together with what follows it. -/
theorem sender_expanded :
    expand (ascii "%\x7bs\x7d") [] (ascii "%\x7bh\x7d") (ascii "helo") [] = ascii "helo" ∧
    scan (ascii "%\x7bs\x7d") [] (ascii "%\x7bh\x7d") (ascii "helo") [] = ascii "%\x7bh\x7d" ∧
    expand (ascii "%%_") [] [] [] [] = ascii " " ∧ scan (ascii "%%_") [] [] [] [] = ascii "%_" := by
  decide +kernel

/-- Two disturbances can make up for each other. -/
theorem disturbances_cancel :
    ¬ Undisturbed (ascii "%\x7bi\x7d") (ascii "%\x7bd\x7d%%") [] [] (ascii "%\x7bd\x7d%") ∧
    expand (ascii "%\x7bi\x7d") (ascii "%\x7bd\x7d%%") [] [] (ascii "%\x7bd\x7d%") =
      scan (ascii "%\x7bi\x7d") (ascii "%\x7bd\x7d%%") [] [] (ascii "%\x7bd\x7d%") := by
  decide +kernel

end SpfMacro

end EmailServer.AntiSpam
