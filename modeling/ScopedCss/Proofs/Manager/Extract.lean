/-
# Extracting for a build and injecting at run time

The same inputs may be handed to a manager that extracts for a build and to managers that inject.
The names agree but for the mark of a class (`answers_run`), and what is extracted is what is
injected: as lines what a collection holds, and as a file what an element shows
(`extract_eq_injected`).

One manager keeps CSS aside under the id of each input, the others register styles; both follow the
history of the run (`Manager.Keeps`), so the first of each id counts on either side.
-/

import ScopedCss.Proofs.Manager.History
import ScopedCss.Proofs.Manager.Mirror
import ScopedCss.Proofs.Style.Split

namespace ScopedCss

/-- Lines with a break between them, and one more behind, are lines with a break behind each. -/
theorem joinLines_append_break {lines : List String} (h : lines ≠ []) :
    joinLines lines ++ "\n" = String.join (lines.map fun line => line ++ "\n") := by
  induction lines with
  | nil => exact absurd rfl h
  | cons line lines ih =>
      by_cases hnil : lines = []
      · subst hnil
        simp [joinLines]
      · rw [joinLines, String.intercalate_cons_of_ne_nil hnil, List.map_cons, String.join_cons,
          String.append_assoc, ← joinLines, ih hnil]

theorem joinLines_ne_empty {lines : List String} (h : lines ≠ [])
    (hlines : ∀ line ∈ lines, line ≠ "") : joinLines lines ≠ "" := by
  obtain ⟨line, lines, rfl⟩ := List.exists_cons_of_ne_nil h
  have hline := hlines line List.mem_cons_self
  by_cases hnil : lines = []
  · subst hnil
    simpa [joinLines] using hline
  · rw [joinLines, String.intercalate_cons_of_ne_nil hnil]
    simp [hline]

theorem rule_ne_nil (selector body : List Char) : rule selector body ≠ [] := by
  simp [rule]

namespace Style

theorem ne_nil_of_mem_parts {style : Style} {name : String} {part : List Char}
    (h : part ∈ style.parts name) : part ≠ [] := by
  rcases List.mem_append.1 h with hown | hnested
  · split at hown
    · rw [List.mem_singleton.1 hown]
      exact rule_ne_nil _ _
    · cases hown
  · obtain ⟨block, -, rfl⟩ := List.mem_map.1 hnested
    unfold nestedRule
    simp only
    split <;> exact rule_ne_nil _ _

theorem compile_ne_empty (style : Style) (name : String) : style.compile name ≠ "" := by
  obtain ⟨part, parts, hparts⟩ := List.exists_cons_of_ne_nil (parts_ne_nil style name)
  have hpart : part ≠ [] := ne_nil_of_mem_parts (hparts ▸ List.mem_cons_self)
  rw [compile_eq_parts, hparts, Ne, String.ofList_eq_empty_iff]
  by_cases hnil : parts = []
  · subst hnil
    rwa [joinWords, List.intercalate_singleton]
  · rw [joinWords_cons part hnil]
    simp [hpart]

end Style

namespace StyleInput

/-- No input compiles to nothing. -/
theorem compile_css_ne_empty (input : StyleInput) : input.compile.css ≠ "" := by
  cases input with
  | template t => simp [compile, cssFor]
  | style s => exact s.compile_ne_empty _

/-- The answer to an input: its class, or for a build its bare id. -/
def answer (buildTime : Bool) (input : StyleInput) : String :=
  if buildTime then input.compile.id else input.compile.className

end StyleInput

/-- A call that is given an input hands it in as it is or as a style. -/
theorem Call.eq_of_input? {c : Call} {input : StyleInput} (h : c.input? = some input) :
    c = .css input ∨ ∃ style, c = .styled style ∧ input = .style style := by
  cases c with
  | addStyle id text metadata => cases h
  | css given =>
      cases h
      exact .inl rfl
  | styled style =>
      cases h
      exact .inr ⟨style, rfl, rfl⟩
  | applyStyles text metadata => cases h
  | clear => cases h

namespace Manager

variable {calls : List Call} {inputs : List StyleInput}

theorem exists_input? (hcalls : calls.map Call.input? = inputs.map some) {c : Call}
    (hc : c ∈ calls) : ∃ input, c.input? = some input := by
  have hmem : c.input? ∈ inputs.map some := hcalls ▸ List.mem_map_of_mem hc
  obtain ⟨input, -, hinput⟩ := List.mem_map.1 hmem
  exact ⟨input, hinput.symm⟩

theorem filterMap_input? {α : Type} (hcalls : calls.map Call.input? = inputs.map some)
    (f : StyleInput → Option α) :
    (calls.filterMap fun c => c.input?.bind f) = inputs.filterMap f := by
  have hgiven : (calls.filterMap fun c => c.input?.bind f) =
      (calls.map Call.input?).filterMap fun given => given.bind f := by
    rw [List.filterMap_map]
    rfl
  rw [hgiven, hcalls, List.filterMap_map]
  rfl

/-- A run over inputs has no clearing. -/
theorem clear_not_mem_of_inputs (hcalls : calls.map Call.input? = inputs.map some) :
    Call.clear ∉ calls := by
  intro hmem
  obtain ⟨input, hinput⟩ := exists_input? hcalls hmem
  cases hinput

/-- A run over inputs registers all of them, or none for a build. -/
theorem registrations_of_inputs (options : Options)
    (hcalls : calls.map Call.input? = inputs.map some) :
    registrations options calls =
      if options.buildTime then [] else inputs.map Registration.ofInput := by
  have hregistered : ∀ c ∈ calls, c.registration? options.buildTime =
      c.input?.bind fun input =>
        if options.buildTime then none else some (Registration.ofInput input) := by
    intro c hc
    obtain ⟨input, hinput⟩ := exists_input? hcalls hc
    rcases Call.eq_of_input? hinput with rfl | ⟨style, rfl, -⟩ <;> rfl
  rw [registrations_of_clear_not_mem options (clear_not_mem_of_inputs hcalls),
    List.filterMap_congr hregistered, filterMap_input? hcalls]
  cases options.buildTime with
  | true => simp
  | false => simp

/-- A run over inputs extracts all of them for a build. -/
theorem extractions_of_inputs (options : Options)
    (hcalls : calls.map Call.input? = inputs.map some) :
    extractions options calls =
      if options.buildTime then inputs.map fun input => (input.compile.id, input.compile.css)
      else [] := by
  have hextracted : extractions options calls = inputs.filterMap fun input =>
      if options.buildTime then some (input.compile.id, input.compile.css) else none :=
    filterMap_input? hcalls _
  rw [hextracted]
  cases options.buildTime with
  | true => simp
  | false => simp

variable {τ : Type} [InjectionTarget τ]

theorem answer_css (m : Manager τ) (input : StyleInput) :
    (m.css input).value.2 = input.answer m.options.buildTime := by
  cases hbuild : m.options.buildTime with
  | true => rw [css_of_buildTime hbuild, StyleInput.answer, if_pos rfl]
  | false => rw [css_of_not_buildTime hbuild, StyleInput.answer, if_neg Bool.false_ne_true]

/-- A run over inputs answers each, whatever was handed in before. -/
theorem answers_run {options : Options} {registered : List Registration}
    {extracted : List (String × String)} {m : Manager τ}
    (h : Keeps options registered extracted m)
    (hcalls : calls.map Call.input? = inputs.map some) :
    (m.run calls).value.2 = inputs.map fun input => some (input.answer options.buildTime) := by
  induction calls generalizing m inputs registered extracted with
  | nil =>
      rw [List.map_nil] at hcalls
      rw [List.map_eq_nil_iff.1 hcalls.symm]
      rfl
  | cons c calls ih =>
      obtain ⟨input, rest, rfl, hc, hrest⟩ := List.map_eq_cons_iff.1 hcalls.symm
      have hanswer : (m.call c).value.2 = some (input.answer options.buildTime) := by
        rw [← h.options_eq]
        rcases Call.eq_of_input? hc.symm with rfl | ⟨style, rfl, rfl⟩
        · exact congrArg some (answer_css m input)
        · exact congrArg some (answer_css m (.style style))
      have hlater := ih (keeps_call h c) hrest.symm
      rw [List.map_cons, ← hanswer, ← hlater]
      rfl

/-- The registry after a run over inputs at run time. -/
theorem styles_after_inputs {options : Options} (hoptions : options.buildTime = false)
    (hcalls : calls.map Call.input? = inputs.map some) (target : τ) :
    ((fresh options target).after calls).styles =
      Table.firsts (inputs.map fun input =>
        (input.compile.id, (Registration.ofInput input).style)) := by
  have h := keeps_after options target calls
  rw [h.styles_eq, registrations_of_inputs options hcalls, if_neg (by simp [hoptions]),
    List.map_map]
  rfl

/-- What is extracted for a build is the CSS of what is registered at run time. -/
theorem extracted_after_inputs {built served : Options} (hbuilt : built.buildTime = true)
    (hserved : served.buildTime = false) {servedCalls : List Call}
    (hcalls : calls.map Call.input? = inputs.map some)
    (hservedCalls : servedCalls.map Call.input? = inputs.map some) {υ : Type} [InjectionTarget υ]
    (target : τ) (servedTarget : υ) :
    ((fresh built target).after calls).extracted =
      ((fresh served servedTarget).after servedCalls).styles.map
        (Prod.map id CompiledStyle.css) := by
  have h := keeps_after built target calls
  rw [h.extracted_eq, extractions_of_inputs built hcalls, if_pos hbuilt,
    styles_after_inputs hserved hservedCalls, ← Table.firsts_map, List.map_map]
  rfl

/-- Nothing is extracted that is empty. -/
theorem extracted_ne_empty {options : Options}
    (hcalls : calls.map Call.input? = inputs.map some) (target : τ) :
    ∀ css ∈ ((fresh options target).after calls).extracted.values, css ≠ "" := by
  intro css hcss
  rw [(keeps_after options target calls).extracted_eq, extractions_of_inputs options hcalls] at hcss
  obtain ⟨entry, hentry, rfl⟩ := List.mem_map.1 hcss
  have hgiven := Table.firsts_subset _ hentry
  split at hgiven
  · obtain ⟨input, -, rfl⟩ := List.mem_map.1 hgiven
    exact input.compile_css_ne_empty
  · cases hgiven

/-- A run over inputs for a build registers nothing and leaves the target alone. -/
theorem build_after_inputs {options : Options} (hoptions : options.buildTime = true)
    (hcalls : calls.map Call.input? = inputs.map some) (target : τ) :
    let m := (fresh options target).after calls
    m.styles = [] ∧ m.injected = [] ∧ m.snapshots = [] ∧ m.target = target := by
  intro m
  have h := keeps_after options target calls
  rw [registrations_of_inputs options hcalls, if_pos hoptions] at h
  have hstyles : m.styles = [] := h.styles_eq
  have hclear := clear_not_mem_of_inputs hcalls
  have htarget := (mirrors_after_fresh options target hclear).target_eq
  rw [show ((fresh options target).after calls).styles = [] from hstyles] at htarget
  refine ⟨hstyles, ?_, ?_, htarget⟩
  · rw [h.injected_eq, h.styles_eq]
    rfl
  · rw [h.snapshots_eq]
    split <;> rfl

/-- A collection that is empty at first holds the CSS of the registered styles, as long as none is
forgotten. -/
theorem collection_after (options : Options) (hclear : .clear ∉ calls) :
    let m := (fresh options (Sink.mk .empty)).after calls
    m.target.collection.styles = m.styles.map (Prod.map id CompiledStyle.css) := by
  intro m
  have h : Keeps options _ _ m := keeps_after options (Sink.mk .empty) calls
  have hids : ∀ entry ∈ m.styles, entry.2.id = entry.1 := by
    intro entry hentry
    obtain ⟨r, -, rfl⟩ := h.exists_of_mem hentry
    rfl
  rw [(mirrors_after_fresh options (Sink.mk .empty) hclear).target_eq, Sink.collection_replay]
  exact Collection.styles_insertAll hids h.nodup_keys fun _ _ hmem => nomatch hmem

theorem collection_after_inputs (options : Options)
    (hcalls : calls.map Call.input? = inputs.map some) :
    let m := (fresh options (Sink.mk .empty)).after calls
    m.target.collection.styles = m.styles.map (Prod.map id CompiledStyle.css) :=
  collection_after options (clear_not_mem_of_inputs hcalls)

/-- The file that is written for a build holds the extracted lines, each with its break. -/
theorem extractFile_eq {τ : Type} (m : Manager τ) (h : ∀ css ∈ m.extracted.values, css ≠ "") :
    m.extractFile = String.join (m.extracted.values.map fun css => css ++ "\n") := by
  unfold extractFile extractedCss
  by_cases hnil : m.extracted.values = []
  · rw [hnil]
    rfl
  · rw [if_neg (joinLines_ne_empty hnil h), joinLines_append_break hnil]

/-- Over the same inputs a build, a collection at run time and an element at run time agree.  The
classes handed out at run time are the ids that the build hands out, with their mark.  The build
extracts what the collection holds, and that is the CSS of the registered styles in lines; the file
it writes is the text of the element.  The build itself registers nothing and leaves its target
alone. -/
theorem extract_eq_injected {built collected shown : Options} (hbuilt : built.buildTime = true)
    (hcollected : collected.buildTime = false) (hshown : shown.buildTime = false) (target : τ)
    (inputs : List StyleInput) {builtCalls collectedCalls shownCalls : List Call}
    (hbuiltCalls : builtCalls.map Call.input? = inputs.map some)
    (hcollectedCalls : collectedCalls.map Call.input? = inputs.map some)
    (hshownCalls : shownCalls.map Call.input? = inputs.map some) :
    let b := ((fresh built target).run builtCalls).value
    let a := ((fresh collected (Sink.mk .empty)).run collectedCalls).value
    let e := ((fresh shown (LiveElement.mk Element.empty)).run shownCalls).value
    (b.2 = inputs.map (fun input => some input.id) ∧
      a.2 = b.2.map (Option.map fun id => "zc-" ++ id) ∧
      e.2 = b.2.map (Option.map fun id => "zc-" ++ id)) ∧
    (b.1.extractedCss = a.1.target.collection.text ∧
      b.1.extractedCss = joinLines (a.1.styles.values.map CompiledStyle.css)) ∧
    (b.1.writeExtract true).value = .ok (ElementHost.text e.1.target.element) ∧
    b.1.styles = [] ∧ b.1.injected = [] ∧ b.1.snapshots = [] ∧ b.1.target = target := by
  intro b a e
  have hb : b.2 = inputs.map fun input => some (input.answer true) :=
    hbuilt ▸ answers_run (keeps_fresh built target) hbuiltCalls
  have ha : a.2 = inputs.map fun input => some (input.answer false) :=
    hcollected ▸ answers_run (keeps_fresh collected (Sink.mk .empty)) hcollectedCalls
  have he : e.2 = inputs.map fun input => some (input.answer false) :=
    hshown ▸ answers_run (keeps_fresh shown (LiveElement.mk Element.empty)) hshownCalls
  have hmarked : inputs.map (fun input => some (input.answer false)) =
      b.2.map (Option.map fun id => "zc-" ++ id) := by
    rw [hb, List.map_map]
    rfl
  -- Either side keeps the first of each id, so one table is the other with its CSS only.
  have hextracted : b.1.extracted = a.1.styles.map (Prod.map id CompiledStyle.css) :=
    extracted_after_inputs hbuilt hcollected hbuiltCalls hcollectedCalls target (Sink.mk .empty)
  have hlines : b.1.extracted.values = a.1.styles.values.map CompiledStyle.css := by
    rw [hextracted, Table.values, Table.values, List.map_map, List.map_map]
    rfl
  have hcollection : a.1.target.collection.styles = b.1.extracted :=
    (collection_after_inputs collected hcollectedCalls).trans hextracted.symm
  have hstyles : e.1.styles = a.1.styles :=
    (styles_after_inputs hshown hshownCalls (LiveElement.mk Element.empty)).trans
      (styles_after_inputs hcollected hcollectedCalls (Sink.mk .empty)).symm
  have hshownText : ElementHost.text e.1.target.element = registeredText e.1.styles :=
    injectedCss_after_of_element rfl (fun _ _ => rfl) (fun _ _ => rfl) shown shownCalls
  have hfull : ∀ css ∈ b.1.extracted.values, css ≠ "" :=
    extracted_ne_empty hbuiltCalls target
  have hfile : b.1.extractFile = ElementHost.text e.1.target.element := by
    rw [extractFile_eq b.1 hfull, hlines, hshownText, hstyles, registeredText, List.map_map]
    rfl
  refine ⟨⟨hb, ha.trans hmarked, he.trans hmarked⟩, ⟨?_, ?_⟩, ?_,
    build_after_inputs hbuilt hbuiltCalls target⟩
  · rw [extractedCss, Collection.text, hcollection]
  · rw [extractedCss, hlines]
  · rw [← hfile]
    rfl

/-- A style, a template with the same id, and the style again. -/
theorem extract_eq_injected_colliding :
    let style : Style := .property "color" (.text "red") .empty
    let twin := Template.raw "\x7b\"color\":\"red\"\x7d"
    let inputs : List StyleInput := [.style style, .template twin, .style style]
    let given : List Call := [.styled style, .css (.template twin), .css (.style style)]
    let other : List Call := [.css (.style style), .css (.template twin), .styled style]
    let forBuild : Options := ⟨.production, false, none, true⟩
    let b := ((fresh forBuild (LiveSheet.mk Sheet.empty)).run given).value
    let a := ((fresh .development (Sink.mk .empty)).run other).value
    let e := ((fresh .production (LiveElement.mk Element.empty)).run given).value
    forBuild.buildTime = true ∧ Options.development.buildTime = false ∧
      Options.production.buildTime = false ∧
      given.map Call.input? = inputs.map some ∧ other.map Call.input? = inputs.map some ∧
      (StyleInput.template twin).id = (StyleInput.style style).id ∧
      b.1.extractedCss = a.1.target.collection.text ∧
      (b.1.writeExtract true).value = .ok (ElementHost.text e.1.target.element) ∧
      b.1.target = LiveSheet.mk Sheet.empty := by
  intro style twin inputs given other forBuild b a e
  have hforBuild : forBuild.buildTime = true := rfl
  have hdevelopment : Options.development.buildTime = false := rfl
  have hproduction : Options.production.buildTime = false := rfl
  have hgiven : given.map Call.input? = inputs.map some := rfl
  have hother : other.map Call.input? = inputs.map some := rfl
  obtain ⟨-, ⟨htext, -⟩, hfile, -, -, -, htarget⟩ :=
    extract_eq_injected hforBuild hdevelopment hproduction (LiveSheet.mk Sheet.empty) inputs hgiven
      hother hgiven
  have hid : (StyleInput.template twin).id = (StyleInput.style style).id :=
    congrArg Digest.ofText (by decide)
  exact ⟨hforBuild, hdevelopment, hproduction, hgiven, hother, hid, htext, hfile, htarget⟩

end Manager

end ScopedCss
