/-
# How compiled styles and JSON forms end

The last three characters tell the CSS of a style from its JSON form and from a rule around that
form.  A compiled rule closes with a space before its brace, and in front of that stands a
semicolon, an opening brace, or another brace with a space before it (`EndsLikeRule`).  A JSON form
closes with a brace as well, but never with a space before it.

So the CSS of a style is neither its own JSON form (`Style.compile_ne_json`) nor that form between
braces (`Style.compile_ne_rule_json`), for whatever class.
-/

import ScopedCss.Proofs.Style.Identity
import ScopedCss.Proofs.Style.Split

namespace ScopedCss

/-- A text whose last brace has a space before it. -/
def EndsSpaced (cs : List Char) : Prop :=
  [' ', '\x7d'] <:+ cs

/-- A text that ends with a declaration or with an inner rule. -/
def EndsLikeEntry (cs : List Char) : Prop :=
  cs.getLast? = some ';' ∨ EndsSpaced cs

/-- A text that ends like a rule: behind an opening brace or the entries of a block. -/
def EndsLikeRule (cs : List Char) : Prop :=
  ∃ front, cs = front ++ [' ', '\x7d'] ∧
    (front.getLast? = some '\x7b' ∨ EndsLikeEntry front)

section Endings

variable {cs : List Char}

theorem EndsSpaced.append_left (h : EndsSpaced cs) (before : List Char) :
    EndsSpaced (before ++ cs) :=
  h.trans (List.suffix_append before cs)

theorem EndsLikeRule.endsSpaced (h : EndsLikeRule cs) : EndsSpaced cs := by
  obtain ⟨front, rfl, -⟩ := h
  exact List.suffix_append front _

theorem getLast?_append_eq_some (before : List Char) {c : Char} (h : cs.getLast? = some c) :
    (before ++ cs).getLast? = some c := by
  rw [List.getLast?_append, h, Option.some_or]

theorem EndsLikeEntry.append_left (h : EndsLikeEntry cs) (before : List Char) :
    EndsLikeEntry (before ++ cs) :=
  h.imp (getLast?_append_eq_some before) (EndsSpaced.append_left · before)

theorem EndsLikeRule.append_left (h : EndsLikeRule cs) (before : List Char) :
    EndsLikeRule (before ++ cs) := by
  obtain ⟨front, rfl, hfront⟩ := h
  refine ⟨before ++ front, (List.append_assoc before front _).symm, ?_⟩
  exact hfront.imp (getLast?_append_eq_some before) (EndsLikeEntry.append_left · before)

theorem endsLikeRule_rule (selector : List Char) {body : List Char}
    (h : body = [] ∨ EndsLikeEntry body) : EndsLikeRule (rule selector body) := by
  unfold rule
  by_cases hbody : body = []
  · refine ⟨selector ++ [' ', '\x7b'], by simp [hbody], .inl ?_⟩
    exact getLast?_append_eq_some _ rfl
  · refine ⟨selector ++ ' ' :: '\x7b' :: ' ' :: body, by simp [hbody], .inr ?_⟩
    have hfront : selector ++ ' ' :: '\x7b' :: ' ' :: body =
        (selector ++ [' ', '\x7b', ' ']) ++ body := by simp
    rw [hfront]
    exact (h.resolve_left hbody).append_left _

/-- Joined texts end as the last of them does. -/
theorem ending_joinWords {p : List Char → Prop}
    (happend : ∀ before cs, p cs → p (before ++ cs)) {parts : List (List Char)} (hne : parts ≠ [])
    (h : ∀ part ∈ parts, p part) : p (joinWords parts) := by
  induction parts with
  | nil => exact absurd rfl hne
  | cons part parts ih =>
      by_cases hnil : parts = []
      · subst hnil
        rw [joinWords, List.intercalate_singleton]
        exact h part List.mem_cons_self
      · rw [joinWords_cons part hnil]
        have hrest := ih hnil fun other hother => h other (List.mem_cons_of_mem part hother)
        exact happend part _ (happend [' '] _ hrest)

end Endings

namespace Style

theorem getLast?_of_mem_declarations {style : Style} {declaration : List Char}
    (h : declaration ∈ style.declarations) : declaration.getLast? = some ';' := by
  induction style with
  | empty => cases h
  | property key value rest ih =>
      rcases List.mem_cons.1 h with rfl | hrest
      · have hwrite : Declaration.write key.toList value.css =
            (Declaration.propertyName key.toList ++ ':' :: ' ' :: value.css) ++ [';'] := by
          simp [Declaration.write]
        rw [hwrite]
        exact getLast?_append_eq_some _ rfl
      · exact ih hrest
  | block key body rest _ ih => exact ih h

/-- Between braces stands nothing, or a text with the end of a declaration or of a rule. -/
theorem ending_blockText {scope : List Char} {style : Style}
    (h : ∀ part ∈ style.nestedRules scope, EndsLikeRule part) :
    style.blockText scope = [] ∨ EndsLikeEntry (style.blockText scope) := by
  by_cases hnil : style.declarations ++ style.nestedRules scope = []
  · rw [blockText, hnil]
    exact .inl rfl
  · have hpart : ∀ part ∈ style.declarations ++ style.nestedRules scope, EndsLikeEntry part :=
      fun part hpart => (List.mem_append.1 hpart).imp getLast?_of_mem_declarations
        fun hnested => (h part hnested).endsSpaced
    exact .inr (ending_joinWords (fun before _ h => h.append_left before) hnil hpart)

theorem endsLikeRule_of_mem_nestedRules {style : Style} {scope part : List Char}
    (h : part ∈ style.nestedRules scope) : EndsLikeRule part := by
  induction style generalizing scope part with
  | empty => cases h
  | property key value rest ih => exact ih h
  | block key body rest ihbody ihrest =>
      rw [nestedRules_block] at h
      rcases List.mem_cons.1 h with rfl | hrest
      · have hbody (inner : List Char) := ending_blockText fun part hpart =>
          @ihbody inner part hpart
        unfold nestedRule
        simp only
        split
        · split
          · exact endsLikeRule_rule key.toList (hbody _)
          · exact endsLikeRule_rule key.toList
              (.inr (.inr (endsLikeRule_rule scope (hbody scope)).endsSpaced))
        · exact endsLikeRule_rule _ (hbody _)
      · exact ihrest hrest

theorem ending_declarations (style : Style) :
    joinWords style.declarations = [] ∨ EndsLikeEntry (joinWords style.declarations) := by
  by_cases hnil : style.declarations = []
  · rw [hnil]
    exact .inl rfl
  · exact .inr (ending_joinWords (fun before _ h => h.append_left before) hnil
      fun part hpart => .inl (getLast?_of_mem_declarations hpart))

theorem endsLikeRule_of_mem_parts {style : Style} {name : String} {part : List Char}
    (h : part ∈ style.parts name) : EndsLikeRule part := by
  rcases List.mem_append.1 h with hown | hnested
  · split at hown
    · rw [List.mem_singleton.1 hown]
      exact endsLikeRule_rule _ (ending_declarations style)
    · cases hown
  · rw [← nestedRules_eq] at hnested
    exact endsLikeRule_of_mem_nestedRules hnested

/-- However a style is compiled, its CSS ends like a rule. -/
theorem endsLikeRule_compile (style : Style) (name : String) :
    EndsLikeRule (style.compile name).toList := by
  rw [compile_eq_parts, String.toList_ofList]
  exact ending_joinWords (fun before _ h => h.append_left before) (parts_ne_nil style name)
    fun _ => endsLikeRule_of_mem_parts

theorem getLast?_jsonFrom (first : Bool) (style : Style) :
    (jsonFrom first style).getLast? = some '\x7d' := by
  induction style generalizing first with
  | empty => rfl
  | property key value rest ih =>
      rw [jsonFrom, ← List.cons_append, ← List.append_assoc]
      exact getLast?_append_eq_some _ (ih false)
  | block key body rest _ ih =>
      rw [jsonFrom, ← List.cons_append, ← List.cons_append, ← List.append_assoc]
      exact getLast?_append_eq_some _ (ih false)

end Style

theorem Scalar.getLast?_json_ne_space (value : Scalar) (before : List Char) :
    (before ++ value.json).getLast? ≠ some ' ' := by
  have hword {c : Char} (hc : c ≠ ' ') (h : value.json.getLast? = some c) :
      (before ++ value.json).getLast? ≠ some ' ' := by
    rw [getLast?_append_eq_some _ h]
    exact fun heq => hc (Option.some.inj heq)
  cases value with
  | text s =>
      refine hword (c := '"') (by decide) ?_
      exact getLast?_append_eq_some ('"' :: s.toList.flatMap Json.escape) rfl
  | number n =>
      cases n with
      | nan => exact hword (c := 'l') (by decide) rfl
      | infinite negative => exact hword (c := 'l') (by decide) rfl
      | finite x =>
          have hjson : (Scalar.number (.finite x)).json = (Number.finite x).text :=
            Number.json_finite x
          have hne := Number.text_ne_nil (.finite x)
          refine hword (c := (Number.finite x).text.getLast hne) ?_ ?_
          · intro heq
            have hchar := Number.isNumberChar_of_mem_text (List.getLast_mem hne)
            rw [heq] at hchar
            exact absurd hchar (by decide)
          · rw [hjson, List.getLast?_eq_some_getLast hne]

namespace Style

/-- Nothing in a JSON form puts a space before its last brace. -/
theorem not_endsSpaced_append_jsonFrom {before : List Char} (h : before.getLast? ≠ some ' ')
    (first : Bool) (style : Style) : ¬ EndsSpaced (before ++ jsonFrom first style) := by
  induction style generalizing before first with
  | empty =>
      rintro ⟨front, hfront⟩
      have heq : front ++ [' '] = before := by
        rw [← List.concat_eq_append, ← List.concat_inj_left '\x7d']
        simpa [jsonFrom] using hfront
      rw [← heq] at h
      exact h (by simp)
  | property key value rest ih =>
      have hcut : before ++ jsonFrom first (.property key value rest) =
          (before ++ ((if first then [] else [',']) ++ Json.quote key.toList ++ [':']) ++
            value.json) ++ jsonFrom false rest := by
        simp [jsonFrom]
      rw [hcut]
      exact ih (value.getLast?_json_ne_space _) false
  | block key body rest _ ih =>
      have hcut : before ++ jsonFrom first (.block key body rest) =
          (before ++ ((if first then [] else [',']) ++ Json.quote key.toList ++ [':', '\x7b']) ++
            jsonFrom true body) ++ jsonFrom false rest := by
        simp [jsonFrom]
      rw [hcut]
      refine ih ?_ false
      rw [getLast?_append_eq_some _ (getLast?_jsonFrom true body)]
      decide

theorem toList_json (style : Style) : style.json.toList = '\x7b' :: jsonFrom true style :=
  String.toList_ofList

theorem not_endsSpaced_append_json (before : List Char) (style : Style) :
    ¬ EndsSpaced (before ++ style.json.toList) := by
  rw [toList_json, List.append_cons]
  exact not_endsSpaced_append_jsonFrom (by simp) true style

/-- The CSS of a style is not the JSON form of one. -/
theorem compile_ne_json (style other : Style) (name : String) :
    style.compile name ≠ other.json := by
  intro h
  have hending := (style.endsLikeRule_compile name).endsSpaced
  rw [h] at hending
  exact other.not_endsSpaced_append_json [] hending

/-- The CSS of a style is not a rule around the JSON form of one. -/
theorem compile_ne_rule_json (style other : Style) (name : String) (before : List Char) :
    (style.compile name).toList ≠ before ++ other.json.toList ++ [' ', '\x7d'] := by
  intro h
  obtain ⟨front, hfront, hending⟩ := style.endsLikeRule_compile name
  have heq : before ++ other.json.toList = front := by
    rw [h] at hfront
    exact List.append_cancel_right hfront
  have hlast : front.getLast? = some '\x7d' := by
    rw [← heq, toList_json]
    exact getLast?_append_eq_some before
      (getLast?_append_eq_some ['\x7b'] (getLast?_jsonFrom true other))
  rcases hending with hbrace | hsemicolon | hspaced
  · rw [hlast] at hbrace
    cases hbrace
  · rw [hlast] at hsemicolon
    cases hsemicolon
  · exact other.not_endsSpaced_append_json before (heq ▸ hspaced)

end Style

end ScopedCss
