/-
# What the identity of a style determines

The JSON form of a style fixes the style up to the spelling of its numbers: two styles with finite
numbers have the same form exactly when they have the same keys in the same order, with equal texts,
numbers of equal text, or blocks that agree in the same way (`Style.json_eq_iff_sameForm`).  So
they also compile to the same CSS, and whatever tells two styles apart shows in what their ids are
digests of.

The form is read from its front.  A string ends at its own closing quote, a number before the comma
or brace that must follow it, and a block with its closing brace; the lemmas therefore carry an
arbitrary continuation behind each text (`Scalar.json_append_inj`, `Style.jsonFrom_append_inj`).
-/

import ScopedCss.Input
import ScopedCss.Proofs.Json.Quoted
import ScopedCss.Proofs.Number.Integer
import ScopedCss.Proofs.Number.Text

namespace ScopedCss

/-- Whether a scalar is not a number without a finite value. -/
def Scalar.isFinite : Scalar → Bool
  | .text _ => true
  | .number n => n.isFinite

/-- Whether all numbers of a style are finite, at every depth. -/
def Style.isFinite : Style → Bool
  | .empty => true
  | .property _ value rest => value.isFinite && isFinite rest
  | .block _ body rest => isFinite body && isFinite rest

/-- Two scalars of one kind: equal strings, or numbers with the same text. -/
def Scalar.SameForm : Scalar → Scalar → Prop
  | .text s, .text t => s = t
  | .number m, .number n => m.text = n.text
  | _, _ => False

/-- Two styles with the same keys in the same order and values of the same kind and form. -/
inductive Style.SameForm : Style → Style → Prop
  | empty : SameForm .empty .empty
  | property (key : String) {v w : Scalar} {rest rest' : Style} (hvalue : v.SameForm w)
      (hrest : SameForm rest rest') : SameForm (.property key v rest) (.property key w rest')
  | block (key : String) {body body' rest rest' : Style} (hbody : SameForm body body')
      (hrest : SameForm rest rest') : SameForm (.block key body rest) (.block key body' rest')

/-- Two texts of one class of characters, each followed by something outside of the class, are equal
with what follows them or not at all. -/
theorem append_inj_of_delimited {p : Char → Bool} {s t r r' : List Char}
    (hs : ∀ c ∈ s, p c = true) (ht : ∀ c ∈ t, p c = true)
    (hr : ∀ c ∈ r.head?, p c = false) (hr' : ∀ c ∈ r'.head?, p c = false)
    (h : s ++ r = t ++ r') : s = t ∧ r = r' := by
  have htake {u v : List Char} (hu : ∀ c ∈ u, p c = true) (hv : ∀ c ∈ v.head?, p c = false) :
      (u ++ v).takeWhile p = u := by
    rw [List.takeWhile_append_of_pos hu]
    cases v with
    | nil => simp
    | cons c v => simp [hv c rfl]
  have hst : s = t := by rw [← htake hs hr, h, htake ht hr']
  subst hst
  exact ⟨rfl, List.append_cancel_left h⟩

namespace Scalar

/-- The JSON form of a finite scalar is a quoted string or the text of a number. -/
theorem json_of_isFinite {v : Scalar} (h : v.isFinite = true) :
    (∃ s, v = .text s ∧ v.json = Json.quote s.toList) ∨
      ∃ n, v = .number n ∧ v.json = n.text := by
  cases v with
  | text s => exact .inl ⟨s, rfl, rfl⟩
  | number n =>
      cases n with
      | finite x => exact .inr ⟨.finite x, rfl, Number.json_finite x⟩
      | nan => cases h
      | infinite negative => cases h

/-- A number does not begin like a string or a block. -/
theorem number_text_ne_cons {n : Number} {r r' : List Char} {c : Char}
    (hc : Number.isNumberChar c = false) : n.text ++ r ≠ c :: r' := by
  intro h
  obtain ⟨d, text, htext⟩ := List.exists_cons_of_ne_nil n.text_ne_nil
  have hd : Number.isNumberChar d = true :=
    Number.isNumberChar_of_mem_text (n := n) (by rw [htext]; exact List.mem_cons_self)
  rw [htext, List.cons_append] at h
  rw [(List.cons.inj h).1, hc] at hd
  cases hd

/-- The JSON form of a scalar does not begin like that of a block. -/
theorem json_append_ne_brace {v : Scalar} (hv : v.isFinite = true) (r r' : List Char) :
    v.json ++ r ≠ '\x7b' :: r' := by
  rcases json_of_isFinite hv with ⟨s, -, hjson⟩ | ⟨n, -, hjson⟩
  · rw [hjson]
    intro h
    exact absurd (List.cons.inj h).1 (by decide)
  · rw [hjson]
    exact number_text_ne_cons (by decide)

/-- The JSON forms of two scalars, each before something that cannot belong to a number, are equal
only if the scalars have the same form. -/
theorem json_append_inj {v w : Scalar} (hv : v.isFinite = true) (hw : w.isFinite = true)
    {r r' : List Char} (hr : ∀ c ∈ r.head?, Number.isNumberChar c = false)
    (hr' : ∀ c ∈ r'.head?, Number.isNumberChar c = false)
    (h : v.json ++ r = w.json ++ r') : v.SameForm w ∧ r = r' := by
  have hquote : Number.isNumberChar '"' = false := by decide
  rcases json_of_isFinite hv with ⟨s, rfl, hs⟩ | ⟨m, rfl, hm⟩ <;>
    rcases json_of_isFinite hw with ⟨t, rfl, ht⟩ | ⟨n, rfl, hn⟩
  · rw [hs, ht] at h
    obtain ⟨htext, hrest⟩ := Json.quote_append_inj h
    exact ⟨String.toList_inj.1 htext, hrest⟩
  · rw [hs, hn] at h
    exact absurd h.symm (number_text_ne_cons hquote)
  · rw [hm, ht] at h
    exact absurd h (number_text_ne_cons hquote)
  · rw [hm, hn] at h
    exact append_inj_of_delimited (fun _ => Number.isNumberChar_of_mem_text)
      (fun _ => Number.isNumberChar_of_mem_text) hr hr' h

theorem json_eq_of_sameForm {v w : Scalar} (hv : v.isFinite = true) (hw : w.isFinite = true)
    (h : v.SameForm w) : v.json = w.json := by
  rcases json_of_isFinite hv with ⟨s, rfl, hs⟩ | ⟨m, rfl, hm⟩ <;>
    rcases json_of_isFinite hw with ⟨t, rfl, ht⟩ | ⟨n, rfl, hn⟩
  · rw [show s = t from h]
  · exact False.elim h
  · exact False.elim h
  · rw [hm, hn]
    exact h

theorem css_eq_of_sameForm {v w : Scalar} (h : v.SameForm w) : v.css = w.css := by
  cases v with
  | text s =>
      cases w with
      | text t => rw [show s = t from h]
      | number n => exact False.elim h
  | number m =>
      cases w with
      | text t => exact False.elim h
      | number n => exact h

end Scalar

namespace Style

/-- What follows an entry cannot belong to a number: it is a comma or a brace. -/
theorem not_isNumberChar_of_mem_head?_jsonFrom (style : Style) (r : List Char) :
    ∀ c ∈ (jsonFrom false style ++ r).head?, Number.isNumberChar c = false := by
  have hcomma : Number.isNumberChar ',' = false := by decide
  have hbrace : Number.isNumberChar '\x7d' = false := by decide
  cases style with
  | empty => simpa [jsonFrom] using hbrace
  | property key value rest => simpa [jsonFrom] using hcomma
  | block key body rest => simpa [jsonFrom] using hcomma

/-- The text of an entry under a key, before what follows the colon. -/
def entryText (first : Bool) (key : String) (rest : List Char) : List Char :=
  (if first then [] else [',']) ++ (Json.quote key.toList ++ ':' :: rest)

theorem jsonFrom_property_append (first : Bool) (key : String) (value : Scalar) (rest : Style)
    (r : List Char) :
    jsonFrom first (.property key value rest) ++ r =
      entryText first key (value.json ++ (jsonFrom false rest ++ r)) := by
  simp only [jsonFrom, entryText, List.append_assoc, List.cons_append]

theorem jsonFrom_block_append (first : Bool) (key : String) (body rest : Style) (r : List Char) :
    jsonFrom first (.block key body rest) ++ r =
      entryText first key ('\x7b' :: (jsonFrom true body ++ (jsonFrom false rest ++ r))) := by
  simp only [jsonFrom, entryText, List.append_assoc, List.cons_append]

/-- The end of a style is told from an entry. -/
theorem entryText_ne_brace (first : Bool) (key : String) (r r' : List Char) :
    entryText first key r ≠ '\x7d' :: r' := by
  intro h
  cases first <;> exact absurd (List.cons.inj h).1 (by decide)

/-- Two entries that begin alike have the same key. -/
theorem entryText_inj {first : Bool} {key key' : String} {r r' : List Char}
    (h : entryText first key r = entryText first key' r') : key = key' ∧ r = r' := by
  obtain ⟨hkey, hrest⟩ := Json.quote_append_inj (List.append_cancel_left h)
  exact ⟨String.toList_inj.1 hkey, (List.cons.inj hrest).2⟩

/-- The JSON forms of two styles, each before an arbitrary continuation, are equal only if the
styles have the same form. -/
theorem jsonFrom_append_inj {a b : Style} (ha : a.isFinite = true) (hb : b.isFinite = true)
    {first : Bool} {r r' : List Char} (h : jsonFrom first a ++ r = jsonFrom first b ++ r') :
    a.SameForm b ∧ r = r' := by
  induction a generalizing b first r r' with
  | empty =>
      cases b with
      | empty => exact ⟨.empty, (List.cons.inj h).2⟩
      | property key value rest =>
          rw [jsonFrom_property_append] at h
          exact absurd h.symm (entryText_ne_brace first key _ r)
      | block key body rest =>
          rw [jsonFrom_block_append] at h
          exact absurd h.symm (entryText_ne_brace first key _ r)
  | property key value rest ih =>
      rw [jsonFrom_property_append] at h
      rw [isFinite, Bool.and_eq_true] at ha
      cases b with
      | empty => exact absurd h (entryText_ne_brace first key _ r')
      | property key' value' rest' =>
          rw [isFinite, Bool.and_eq_true] at hb
          rw [jsonFrom_property_append] at h
          obtain ⟨rfl, hvalues⟩ := entryText_inj h
          obtain ⟨hvalue, hrests⟩ := Scalar.json_append_inj ha.1 hb.1
            (not_isNumberChar_of_mem_head?_jsonFrom rest r)
            (not_isNumberChar_of_mem_head?_jsonFrom rest' r') hvalues
          obtain ⟨hrest, hr⟩ := ih ha.2 hb.2 hrests
          exact ⟨.property key hvalue hrest, hr⟩
      | block key' body' rest' =>
          rw [jsonFrom_block_append] at h
          exact absurd (entryText_inj h).2 (Scalar.json_append_ne_brace ha.1 _ _)
  | block key body rest ihbody ihrest =>
      rw [jsonFrom_block_append] at h
      rw [isFinite, Bool.and_eq_true] at ha
      cases b with
      | empty => exact absurd h (entryText_ne_brace first key _ r')
      | property key' value' rest' =>
          rw [isFinite, Bool.and_eq_true] at hb
          rw [jsonFrom_property_append] at h
          exact absurd (entryText_inj h).2.symm (Scalar.json_append_ne_brace hb.1 _ _)
      | block key' body' rest' =>
          rw [isFinite, Bool.and_eq_true] at hb
          rw [jsonFrom_block_append] at h
          obtain ⟨rfl, hbodies⟩ := entryText_inj h
          obtain ⟨hbody, hrests⟩ := ihbody ha.1 hb.1 (List.cons.inj hbodies).2
          obtain ⟨hrest, hr⟩ := ihrest ha.2 hb.2 hrests
          exact ⟨.block key hbody hrest, hr⟩

/-- Styles of the same form have the same JSON form. -/
theorem jsonFrom_eq_of_sameForm {a b : Style} (h : a.SameForm b) (ha : a.isFinite = true)
    (hb : b.isFinite = true) (first : Bool) : jsonFrom first a = jsonFrom first b := by
  induction h generalizing first with
  | empty => rfl
  | property key hvalue _ ih =>
      rw [isFinite, Bool.and_eq_true] at ha hb
      rw [jsonFrom, jsonFrom, Scalar.json_eq_of_sameForm ha.1 hb.1 hvalue, ih ha.2 hb.2]
  | block key _ _ ihbody ihrest =>
      rw [isFinite, Bool.and_eq_true] at ha hb
      rw [jsonFrom, jsonFrom, ihbody ha.1 hb.1, ihrest ha.2 hb.2]

theorem json_eq_iff {a b : Style} (ha : a.isFinite = true) (hb : b.isFinite = true) :
    a.json = b.json ↔ a.SameForm b := by
  constructor
  · intro h
    have htext := List.cons.inj (String.ofList_injective h)
    have hfrom : jsonFrom true a ++ [] = jsonFrom true b ++ [] := by
      rw [List.append_nil, List.append_nil]
      exact htext.2
    exact (jsonFrom_append_inj ha hb hfrom).1
  · intro h
    rw [json, json, jsonFrom_eq_of_sameForm h ha hb]

theorem declarations_eq_of_sameForm {a b : Style} (h : a.SameForm b) :
    a.declarations = b.declarations := by
  induction h with
  | empty => rfl
  | property key hvalue _ ih =>
      rw [declarations, declarations, Scalar.css_eq_of_sameForm hvalue, ih]
  | block key _ _ _ ihrest => exact ihrest

theorem hasBlock_eq_of_sameForm {a b : Style} (h : a.SameForm b) : a.hasBlock = b.hasBlock := by
  induction h with
  | empty => rfl
  | property key _ _ ih => exact ih
  | block key _ _ _ _ => rfl

theorem nestedRules_eq_of_sameForm {a b : Style} (h : a.SameForm b) (scope : List Char) :
    a.nestedRules scope = b.nestedRules scope := by
  induction h generalizing scope with
  | empty => rfl
  | property key _ _ ih => exact ih scope
  | block key hbody _ ihbody ihrest =>
      simp only [nestedRules, declarations_eq_of_sameForm hbody, ihbody, ihrest scope]

/-- Styles of the same form compile to the same CSS. -/
theorem compile_eq_of_sameForm {a b : Style} (h : a.SameForm b) (name : String) :
    a.compile name = b.compile name := by
  simp only [compile, topRules, hasBlock_eq_of_sameForm h, declarations_eq_of_sameForm h,
    nestedRules_eq_of_sameForm h]

/-- The JSON form of a style with finite numbers determines it: equal forms come from styles of the
same form only, which compile to the same CSS for every class, and any other difference shows in
the text that the id of the style is the digest of. -/
theorem json_eq_iff_sameForm {a b : Style} (ha : a.isFinite = true) (hb : b.isFinite = true) :
    (a.json = b.json ↔ a.SameForm b) ∧
      (a.json = b.json → ∀ name, a.compile name = b.compile name) ∧
      (¬ a.SameForm b → (StyleInput.style a).identity ≠ (StyleInput.style b).identity) := by
  refine ⟨json_eq_iff ha hb, fun h name => ?_, fun hdiffer h => ?_⟩
  · exact compile_eq_of_sameForm ((json_eq_iff ha hb).1 h) name
  · exact hdiffer ((json_eq_iff ha hb).1 h)

/-- The two zeros are different numbers of one text, so they give the same form and the same CSS,
next to a key with a quote and a text that looks like the end of an object. -/
theorem json_eq_iff_sameForm_zeros :
    let styleOf (zero : Number) : Style :=
      .property "a\"b" (.number zero) (.block ":hover" (.property "c" (.text "\x7d,0") .empty) .empty)
    let a := styleOf (Number.zero true)
    let b := styleOf (Number.zero false)
    a.isFinite = true ∧ b.isFinite = true ∧ a ≠ b ∧
      a.json = "\x7b\"a\\\"b\":0,\":hover\":\x7b\"c\":\"\x7d,0\"\x7d\x7d" ∧ b.json = a.json ∧
      a.SameForm b ∧ ∀ name, a.compile name = b.compile name := by
  intro styleOf a b
  have ha : a.isFinite = true := by decide +kernel
  have hb : b.isFinite = true := by decide +kernel
  have hjson : a.json = b.json := by decide +kernel
  obtain ⟨hiff, hcompile, -⟩ := json_eq_iff_sameForm ha hb
  exact ⟨ha, hb, by decide +kernel, by decide +kernel, hjson.symm, hiff.1 hjson, hcompile hjson⟩

end Style

end ScopedCss
