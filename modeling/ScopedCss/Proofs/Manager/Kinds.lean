/-
# Registrations of different kinds

A template, a style and raw CSS are known by ids of one space: the id of each is the digest of a
text, its source, which is the text of the template, the JSON form of the style or the raw CSS
itself.  The three make different CSS of one source (`Given.css_eq_iff_kind_eq`).  So a registration
can find its id taken by CSS that is not its own although no two digests collide; a template and raw
CSS of the same text are the shortest case (`raw_css_not_registered`).

Where different sources have different ids, the CSS registered under an id is that of the first call
with the id, and it is that of a later call exactly if the two are of one kind
(`registered_css_iff_same_kind`).  The runs have no clearing and no call that chooses its id freely.
-/

import ScopedCss.Proofs.Manager.History
import ScopedCss.Proofs.Style.Ending

namespace ScopedCss

/-- What is handed in to a call that derives the id itself. -/
inductive Given where
  | template (t : Template)
  | style (s : Style)
  | raw (text : String)
deriving DecidableEq

/-- How a source is made into CSS. -/
inductive Kind where
  | template
  | style
  | raw
deriving DecidableEq

namespace Given

/-- The kind of what is handed in. -/
def kind : Given → Kind
  | .template _ => .template
  | .style _ => .style
  | .raw _ => .raw

/-- The text that the id is the digest of. -/
def source : Given → String
  | .template t => (StyleInput.template t).identity
  | .style s => (StyleInput.style s).identity
  | .raw text => text

/-- The id, which the kind has no part in. -/
def id (g : Given) : String :=
  Digest.ofText g.source

/-- The CSS to be registered. -/
def css : Given → String
  | .template t => (StyleInput.template t).compile.css
  | .style s => (StyleInput.style s).compile.css
  | .raw text => text

/-- Whether all numbers in a style are finite. -/
def isFinite : Given → Bool
  | .style s => s.isFinite
  | _ => true

theorem toList_css_template (t : Template) :
    ∃ before, before ≠ [] ∧
      (template t).css.toList = before ++ t.css.toList ++ [' ', '\x7d'] := by
  refine ⟨("." ++ Digest.className (template t).id ++ " \x7b ").toList, ?_, ?_⟩
  · simp
  · have hend : " \x7d".toList = [' ', '\x7d'] := by cbv
    rw [← hend, ← String.toList_append, ← String.toList_append]
    rfl

theorem css_template_ne_style {t : Template} {s : Style}
    (h : (template t).source = (style s).source) : (template t).css ≠ (style s).css := by
  obtain ⟨before, -, htext⟩ := toList_css_template t
  rw [show t.css = s.json from h] at htext
  intro heq
  rw [heq] at htext
  exact s.compile_ne_rule_json s _ before htext

theorem css_template_ne_raw {t : Template} {text : String}
    (h : (template t).source = (raw text).source) : (template t).css ≠ (raw text).css := by
  obtain ⟨before, -, htext⟩ := toList_css_template t
  intro heq
  rw [heq, show (raw text).css = t.css from h.symm] at htext
  have hlength := congrArg List.length htext
  rw [List.length_append, List.length_append, List.length_cons] at hlength
  omega

theorem css_style_ne_raw {s : Style} {text : String}
    (h : (style s).source = (raw text).source) : (style s).css ≠ (raw text).css := by
  rw [show (raw text).css = s.json from h.symm]
  exact s.compile_ne_json s _

/-- Two styles with one source compile to the same CSS. -/
theorem css_style_eq {s u : Style} (hs : s.isFinite = true) (hu : u.isFinite = true)
    (h : (style s).source = (style u).source) : (style s).css = (style u).css := by
  have hform : s.SameForm u := (Style.json_eq_iff hs hu).1 h
  have hid : (StyleInput.style s).id = (StyleInput.style u).id := congrArg Digest.ofText h
  change s.compile (Digest.className _) = u.compile (Digest.className _)
  rw [hid, Style.compile_eq_of_sameForm hform]

/-- Two templates with one source compile to the same CSS. -/
theorem css_template_eq {t u : Template} (h : (template t).source = (template u).source) :
    (template t).css = (template u).css := by
  have hid : (StyleInput.template t).id = (StyleInput.template u).id := congrArg Digest.ofText h
  change "." ++ Digest.className _ ++ " \x7b " ++ t.css ++ " \x7d" =
    "." ++ Digest.className _ ++ " \x7b " ++ u.css ++ " \x7d"
  rw [hid, show t.css = u.css from h]

/-- Of one source, things of one kind and only these make the same CSS. -/
theorem css_eq_iff_kind_eq {g h : Given} (hg : g.isFinite = true) (hh : h.isFinite = true)
    (hsource : g.source = h.source) : g.css = h.css ↔ g.kind = h.kind := by
  cases g with
  | template t =>
      cases h with
      | template u => exact iff_of_true (css_template_eq hsource) rfl
      | style u => exact iff_of_false (css_template_ne_style hsource) (by simp [kind])
      | raw text => exact iff_of_false (css_template_ne_raw hsource) (by simp [kind])
  | style s =>
      cases h with
      | template u =>
          exact iff_of_false (css_template_ne_style hsource.symm).symm (by simp [kind])
      | style u => exact iff_of_true (css_style_eq hg hh hsource) rfl
      | raw text => exact iff_of_false (css_style_ne_raw hsource) (by simp [kind])
  | raw text =>
      cases h with
      | template u => exact iff_of_false (css_template_ne_raw hsource.symm).symm (by simp [kind])
      | style u => exact iff_of_false (css_style_ne_raw hsource.symm).symm (by simp [kind])
      | raw other => exact iff_of_true hsource rfl

end Given

namespace Call

/-- What a call is given that derives the id itself. -/
def given? : Call → Option Given
  | .css (.template t) => some (.template t)
  | .css (.style s) | .styled s => some (.style s)
  | .applyStyles text _ => some (.raw text)
  | .addStyle _ _ _ | .clear => none

/-- What is given is registered under its id with its CSS. -/
theorem registration?_of_given? {c : Call} {g : Given} (h : c.given? = some g) :
    (c.registration? false).map (fun r => (r.id, r.css)) = some (g.id, g.css) := by
  cases c with
  | addStyle id text metadata => cases h
  | css input =>
      cases input with
      | template t =>
          cases h
          rfl
      | style s =>
          cases h
          rfl
  | styled s =>
      cases h
      rfl
  | applyStyles text metadata =>
      cases h
      rfl
  | clear => cases h

end Call

namespace Manager

variable {calls : List Call} {givens : List Given}

theorem exists_given? (hcalls : calls.map Call.given? = givens.map some) {c : Call}
    (hc : c ∈ calls) : ∃ g, c.given? = some g := by
  have hmem : c.given? ∈ givens.map some := hcalls ▸ List.mem_map_of_mem hc
  obtain ⟨g, -, hg⟩ := List.mem_map.1 hmem
  exact ⟨g, hg.symm⟩

/-- A run over what is given registers all of it, in order. -/
theorem registrations_of_given {options : Options} (hruntime : options.buildTime = false)
    (hcalls : calls.map Call.given? = givens.map some) :
    (registrations options calls).map (fun r => (r.id, r.css)) =
      givens.map fun g => (g.id, g.css) := by
  have hclear : .clear ∉ calls := by
    intro hmem
    obtain ⟨g, hg⟩ := exists_given? hcalls hmem
    cases hg
  have hregistered : ∀ c ∈ calls, (c.registration? options.buildTime).map (fun r => (r.id, r.css)) =
      c.given?.map fun g => (g.id, g.css) := by
    intro c hc
    obtain ⟨g, hg⟩ := exists_given? hcalls hc
    rw [hruntime, hg, Call.registration?_of_given? hg, Option.map_some]
  have hgivens : calls.filterMap Call.given? = givens := by
    have hmapped := congrArg (List.filterMap fun given => given) hcalls
    simpa [List.filterMap_map, Function.comp_def] using hmapped
  rw [registrations_of_clear_not_mem options hclear, List.map_filterMap,
    List.filterMap_congr hregistered, ← List.map_filterMap, hgivens]

variable {τ : Type} [InjectionTarget τ]

/-- Under an id stands the CSS of what was given first with that id. -/
theorem css_style?_after {options : Options} (hruntime : options.buildTime = false) (target : τ)
    (hcalls : calls.map Call.given? = givens.map some) (id : String) :
    (((fresh options target).after calls).style? id).map CompiledStyle.css =
      (givens.find? fun g => g.id == id).map Given.css := by
  have h := keeps_after options target calls
  rw [style?, h.styles_eq, Table.get?_firsts, Table.lookup_map_eq_find?, Option.map_map,
    ← Table.lookup_map_eq_find? Given.id Given.css, ← registrations_of_given hruntime hcalls,
    Table.lookup_map_eq_find?]
  rfl

/-- Where different sources have different ids, the CSS under the id of a call is, right after it,
that of the first call with the id.  It is what the call was to register exactly if the first call
was given something of the same kind. -/
theorem registered_css_iff_same_kind {options : Options} (hruntime : options.buildTime = false)
    (target : τ) (hcalls : calls.map Call.given? = givens.map some)
    (hfinite : ∀ g ∈ givens, g.isFinite = true)
    (hsources : ∀ g ∈ givens, ∀ h ∈ givens, g.id = h.id → g.source = h.source) :
    ∀ n g, givens[n]? = some g →
      let m := (fresh options target).after (calls.take (n + 1))
      ∃ first, (givens.take (n + 1)).find? (fun h => h.id == g.id) = some first ∧
        (m.style? g.id).map CompiledStyle.css = some first.css ∧
        ((m.style? g.id).map CompiledStyle.css = some g.css ↔ first.kind = g.kind) := by
  intro n g hg m
  have hprefix : (calls.take (n + 1)).map Call.given? = (givens.take (n + 1)).map some := by
    rw [List.map_take, List.map_take, hcalls]
  have hcss := css_style?_after hruntime target hprefix g.id
  have hlast : g ∈ givens.take (n + 1) := by
    rw [List.take_add_one, hg]
    exact List.mem_append_right _ List.mem_cons_self
  have hmem {h : Given} (hh : h ∈ givens.take (n + 1)) : h ∈ givens := List.mem_of_mem_take hh
  cases hfirst : (givens.take (n + 1)).find? (fun h => h.id == g.id) with
  | none => exact absurd BEq.rfl (List.find?_eq_none.1 hfirst g hlast)
  | some first =>
      have hid : first.id = g.id := by simpa using List.find?_some hfirst
      have hin : first ∈ givens := hmem (List.mem_of_find?_eq_some hfirst)
      rw [hfirst, Option.map_some] at hcss
      refine ⟨first, rfl, hcss, ?_⟩
      rw [hcss, Option.some_inj]
      exact Given.css_eq_iff_kind_eq (hfinite first hin) (hfinite g (hmem hlast))
        (hsources first hin g (hmem hlast) hid)

/-- A template that is the JSON form of a style finds the CSS of the style; raw CSS of another text
finds its own. -/
theorem registered_css_iff_same_kind_twin :
    let s : Style := .property "color" (.text "red") .empty
    let twin := Template.raw s.json
    let calls : List Call :=
      [.styled s, .css (.template twin), .applyStyles ".a \x7b \x7d" (some .null)]
    let givens : List Given := [.style s, .template twin, .raw ".a \x7b \x7d"]
    let m (n : Nat) := (fresh .production (Sink.mk .empty)).after (calls.take n)
    Options.production.buildTime = false ∧ calls.map Call.given? = givens.map some ∧
      (∀ g ∈ givens, g.isFinite = true) ∧
      (∀ g ∈ givens, ∀ h ∈ givens, g.id = h.id → g.source = h.source) ∧
      (((m 2).style? (StyleInput.template twin).id).map CompiledStyle.css =
        some (StyleInput.style s).compile.css) ∧
      (((m 2).style? (StyleInput.template twin).id).map CompiledStyle.css ≠
        some (StyleInput.template twin).compile.css) ∧
      (((m 3).style? (Digest.ofText ".a \x7b \x7d")).map CompiledStyle.css =
        some ".a \x7b \x7d") := by
  intro s twin calls givens m
  have hruntime : Options.production.buildTime = false := by decide
  have hcalls : calls.map Call.given? = givens.map some := rfl
  have hfinite : ∀ g ∈ givens, g.isFinite = true := by decide +kernel
  have hsources : ∀ g ∈ givens, ∀ h ∈ givens, g.id = h.id → g.source = h.source := by
    decide +kernel
  have h := registered_css_iff_same_kind hruntime (Sink.mk .empty) hcalls hfinite hsources
  obtain ⟨first, hfirst, htwin, hkind⟩ := h 1 (.template twin) rfl
  obtain ⟨own, hown, hraw, -⟩ := h 2 (.raw ".a \x7b \x7d") rfl
  have hstyle : (givens.take 2).find? (fun h => h.id == (Given.template twin).id) =
      some (.style s) := by
    decide +kernel
  have hraws : (givens.take 3).find? (fun h => h.id == (Given.raw ".a \x7b \x7d").id) =
      some (.raw ".a \x7b \x7d") := by
    decide +kernel
  cases hfirst.symm.trans hstyle
  cases hown.symm.trans hraws
  refine ⟨hruntime, hcalls, hfinite, hsources, htwin, fun heq => ?_, hraw⟩
  cases hkind.1 heq

/-- A template comes first, then raw CSS of the same text: the raw CSS is not registered, although
both calls have the one source. -/
theorem raw_css_not_registered :
    let text := "color: red;"
    let calls : List Call := [.css (.template (.raw text)), .applyStyles text none]
    let m := (fresh .production (Sink.mk .empty)).after calls
    (StyleInput.template (.raw text)).identity = text ∧
      (m.style? (Digest.ofText text)).map CompiledStyle.css =
        some ".zc-34gjkj \x7b color: red; \x7d" ∧
      (m.style? (Digest.ofText text)).map CompiledStyle.css ≠ some text := by
  decide +kernel

end Manager

end ScopedCss
