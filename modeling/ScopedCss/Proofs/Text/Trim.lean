/-
# Trimmed texts

A text is its own trimming exactly when neither of its ends is blank.  From that follows that
trimming settles at once (`trim_trim`).  Blanks put in front of a text or behind it do not show in
its trimming (`trim_append_of_blank`, `trim_append_blank`).
-/

import Mathlib.Data.List.DropRight
import ScopedCss.Text.Blank

namespace ScopedCss.Text

/-- Trimming at the back leaves a front part of the text. -/
theorem trimEnd_isPrefix (cs : List Char) : trimEnd cs <+: cs :=
  List.rdropWhile_prefix isBlank cs

/-- What trimming at the back takes away are blanks. -/
theorem exists_trimEnd_append (cs : List Char) :
    ∃ blanks, (∀ c ∈ blanks, isBlank c = true) ∧ trimEnd cs ++ blanks = cs := by
  refine ⟨(cs.reverse.takeWhile isBlank).reverse, fun c hc => ?_, ?_⟩
  · exact List.all_eq_true.1 List.all_takeWhile c (List.mem_reverse.1 hc)
  · rw [trimEnd, ← List.reverse_append, List.takeWhile_append_dropWhile, List.reverse_reverse]

/-- Trimming leaves a part of the text. -/
theorem trim_isInfix (cs : List Char) : trim cs <:+: cs :=
  (trimEnd_isPrefix (trimStart cs)).isInfix.trans (List.dropWhile_suffix isBlank).isInfix

/-- What is left after trimming at the front does not begin with a blank. -/
theorem not_isBlank_of_mem_head?_trimStart {c : Char} {cs : List Char}
    (h : c ∈ (trimStart cs).head?) : isBlank c = false := by
  have hhead := List.head?_dropWhile_not isBlank cs
  rw [Option.mem_def, trimStart] at h
  rwa [h] at hhead

theorem trimStart_eq_self {cs : List Char} (h : ∀ c ∈ cs.head?, isBlank c = false) :
    trimStart cs = cs := by
  cases cs with
  | nil => rfl
  | cons c cs =>
      have hc : isBlank c = false := h c rfl
      simp [trimStart, hc]

theorem trimEnd_eq_self {cs : List Char} (h : ∀ c ∈ cs.getLast?, isBlank c = false) :
    trimEnd cs = cs := by
  apply List.rdropWhile_eq_self_iff.2
  intro hne
  have hlast := h (cs.getLast hne) (List.getLast?_eq_some_getLast hne)
  simp [hlast]

/-- A text whose ends are not blank is its own trimming. -/
theorem trim_eq_self {cs : List Char} (hfirst : ∀ c ∈ cs.head?, isBlank c = false)
    (hlast : ∀ c ∈ cs.getLast?, isBlank c = false) : trim cs = cs := by
  rw [trim, trimStart_eq_self hfirst, trimEnd_eq_self hlast]

/-- A trimmed text does not begin with a blank. -/
theorem not_isBlank_of_mem_head?_trim {c : Char} {cs : List Char}
    (h : c ∈ (trim cs).head?) : isBlank c = false := by
  obtain ⟨back, hback⟩ := trimEnd_isPrefix (trimStart cs)
  have hstart : c ∈ (trimStart cs).head? := by
    rw [← hback]
    exact List.mem_head?_append_of_mem_head? h
  exact not_isBlank_of_mem_head?_trimStart hstart

/-- A trimmed text does not end with a blank. -/
theorem not_isBlank_of_mem_getLast?_trim {c : Char} {cs : List Char}
    (h : c ∈ (trim cs).getLast?) : isBlank c = false := by
  have hne : trim cs ≠ [] := by
    intro hnil
    simp [hnil] at h
  have hlast := List.rdropWhile_last_not isBlank (trimStart cs) hne
  rw [Option.mem_def, List.getLast?_eq_some_getLast hne, Option.some.injEq] at h
  rw [← h]
  exact Bool.eq_false_iff.2 hlast

@[simp] theorem trim_trim (cs : List Char) : trim (trim cs) = trim cs :=
  trim_eq_self (fun _ => not_isBlank_of_mem_head?_trim)
    (fun _ => not_isBlank_of_mem_getLast?_trim)

theorem trim_append_of_blank {blanks : List Char} (h : ∀ c ∈ blanks, isBlank c = true)
    (cs : List Char) : trim (blanks ++ cs) = trim cs := by
  rw [trim, trim, trimStart, List.dropWhile_append_of_pos h, ← trimStart]

theorem trim_append_blank (cs : List Char) {blanks : List Char}
    (h : ∀ c ∈ blanks, isBlank c = true) : trim (cs ++ blanks) = trim cs := by
  have hend (front : List Char) : trimEnd (front ++ blanks) = trimEnd front := by
    rw [trimEnd, trimEnd, List.reverse_append,
      List.dropWhile_append_of_pos fun c hc => h c (List.mem_reverse.1 hc)]
  rw [trim, trim, trimStart, trimStart, List.dropWhile_append]
  split
  · next hnil =>
    rw [List.isEmpty_iff.1 hnil, List.dropWhile_eq_nil_iff.2 h]
  · exact hend _

@[simp] theorem trimString_ofList_trim (cs : List Char) :
    trimString (String.ofList (trim cs)) = String.ofList (trim cs) := by
  simp [trimString]

end ScopedCss.Text
