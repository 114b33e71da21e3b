/-
# Two managers on the same calls

What a manager makes of its calls depends on one option only, whether it works for a build.  Two
managers that agree on it may differ in every other option and in their targets: on the same calls
they answer the same, register the same styles and extract the same CSS
(`output_eq_of_buildTime_eq`).  A target that refuses, or that gives nothing up, is not noticed.

Neither do options reach the targets.  Where two targets go in lockstep (`Lockstep`), as sheets do
that accept and refuse alike, they still do so after every run.

`Manager.Paired` is what holds of two such managers, with any relation between their targets; one
call keeps it and is answered alike (`paired_call`).
-/

import ScopedCss.Manager.Report
import ScopedCss.Proofs.Manager.Replay

namespace ScopedCss

/-- A relation between targets of two types that injecting and clearing keep. -/
structure Lockstep {τ υ : Type} [InjectionTarget τ] [InjectionTarget υ] (R : τ → υ → Prop) :
    Prop where
  inject (target : τ) (twin : υ) (id css : String) (h : R target twin) :
    R (InjectionTarget.inject target id css).1 (InjectionTarget.inject twin id css).1
  clear (target : τ) (twin : υ) (h : R target twin) :
    R (InjectionTarget.clear target).1 (InjectionTarget.clear twin).1

/-- Two answers of a host are both refusals, of whatever wording, or they are related. -/
def AlikeAnswers {σ ρ : Type} (R : σ → ρ → Prop) : Except Rejected σ → Except Rejected ρ → Prop
  | .ok host, .ok twin => R host twin
  | .error _, .error _ => True
  | _, _ => False

/-- Related sheets show the same rules, accept and refuse alike, and stay related. -/
structure AlikeSheets {σ ρ : Type} [SheetHost σ] [SheetHost ρ] (R : σ → ρ → Prop) : Prop where
  count_eq (host : σ) (twin : ρ) (h : R host twin) : SheetHost.count host = SheetHost.count twin
  text?_eq (host : σ) (twin : ρ) (h : R host twin) (index : Nat) :
    SheetHost.text? host index = SheetHost.text? twin index
  insert (host : σ) (twin : ρ) (h : R host twin) (rule : String) (index : Nat) :
    AlikeAnswers R (SheetHost.insert host rule index) (SheetHost.insert twin rule index)
  delete (host : σ) (twin : ρ) (h : R host twin) (index : Nat) :
    AlikeAnswers R (SheetHost.delete host index) (SheetHost.delete twin index)

/-- Related elements show the same text and stay related. -/
structure AlikeElements {ε δ : Type} [ElementHost ε] [ElementHost δ] (R : ε → δ → Prop) :
    Prop where
  text_eq (host : ε) (twin : δ) (h : R host twin) : ElementHost.text host = ElementHost.text twin
  setText (host : ε) (twin : δ) (h : R host twin) (text : String) :
    R (ElementHost.setText host text) (ElementHost.setText twin text)
  appendText (host : ε) (twin : δ) (h : R host twin) (more : String) :
    R (ElementHost.appendText host more) (ElementHost.appendText twin more)

/-- Nothing is asked of targets that are not compared. -/
theorem lockstep_true (τ υ : Type) [InjectionTarget τ] [InjectionTarget υ] :
    Lockstep fun (_ : τ) (_ : υ) => True :=
  ⟨fun _ _ _ _ _ => trivial, fun _ _ _ => trivial⟩

theorem lockstep_sink : Lockstep fun sink twin : Sink => sink.collection = twin.collection :=
  ⟨fun _ _ id css h => congrArg (fun collection => collection.insert id css) h, fun _ _ h => h⟩

section Sheets

variable {σ ρ : Type} [SheetHost σ] [SheetHost ρ] {R : σ → ρ → Prop}

theorem AlikeSheets.appendRules (hR : AlikeSheets R) {host : σ} {twin : ρ} (h : R host twin)
    (rules : List String) :
    R (LiveSheet.appendRules host rules).1 (LiveSheet.appendRules twin rules).1 := by
  induction rules generalizing host twin with
  | nil => exact h
  | cons rule rules ih =>
      have hanswers := hR.insert host twin h rule (SheetHost.count host)
      rw [LiveSheet.appendRules, LiveSheet.appendRules, ← hR.count_eq host twin h]
      cases hhost : SheetHost.insert host rule (SheetHost.count host) with
      | ok grown =>
          cases htwin : SheetHost.insert twin rule (SheetHost.count host) with
          | ok other =>
              rw [hhost, htwin] at hanswers
              exact ih hanswers
          | error refusal =>
              rw [hhost, htwin] at hanswers
              exact hanswers.elim
      | error refusal =>
          cases htwin : SheetHost.insert twin rule (SheetHost.count host) with
          | ok other =>
              rw [hhost, htwin] at hanswers
              exact hanswers.elim
          | error other => exact ih h

theorem AlikeSheets.removeRules (hR : AlikeSheets R) {host : σ} {twin : ρ} (h : R host twin)
    (count : Nat) :
    R (LiveSheet.removeRules host count).1 (LiveSheet.removeRules twin count).1 := by
  induction count generalizing host twin with
  | zero => exact h
  | succ last ih =>
      have hanswers := hR.delete host twin h last
      rw [LiveSheet.removeRules, LiveSheet.removeRules]
      cases hhost : SheetHost.delete host last with
      | ok shrunk =>
          cases htwin : SheetHost.delete twin last with
          | ok other =>
              rw [hhost, htwin] at hanswers
              exact ih hanswers
          | error refusal =>
              rw [hhost, htwin] at hanswers
              exact hanswers.elim
      | error refusal =>
          cases htwin : SheetHost.delete twin last with
          | ok other =>
              rw [hhost, htwin] at hanswers
              exact hanswers.elim
          | error other => exact h

theorem AlikeSheets.lockstep (hR : AlikeSheets R) :
    Lockstep fun (live : LiveSheet σ) (twin : LiveSheet ρ) => R live.sheet twin.sheet := by
  refine ⟨fun live twin id css h => hR.appendRules h _, fun live twin h => ?_⟩
  have hremoved := hR.removeRules h (SheetHost.count live.sheet)
  simpa only [InjectionTarget.clear, ← hR.count_eq live.sheet twin.sheet h] using hremoved

/-- Related sheets show the same CSS. -/
theorem AlikeSheets.injected_eq (hR : AlikeSheets R) {live : LiveSheet σ} {twin : LiveSheet ρ}
    (h : R live.sheet twin.sheet) :
    InjectionTarget.injected live = InjectionTarget.injected twin := by
  have htexts : SheetHost.text? live.sheet = SheetHost.text? twin.sheet :=
    funext (hR.text?_eq live.sheet twin.sheet h)
  simp only [InjectionTarget.injected, hR.count_eq live.sheet twin.sheet h, htexts]

end Sheets

theorem AlikeElements.lockstep {ε δ : Type} [ElementHost ε] [ElementHost δ] {R : ε → δ → Prop}
    (hR : AlikeElements R) :
    Lockstep fun (live : LiveElement ε) (twin : LiveElement δ) => R live.element twin.element :=
  ⟨fun _ _ _ css h => hR.appendText _ _ h (css ++ "\n"), fun _ _ h => hR.setText _ _ h ""⟩

namespace Manager

/-- Two managers keep the same, but for snapshots that only one of them keeps, and their targets are
related. -/
structure Paired {τ υ : Type} (R : τ → υ → Prop) (m : Manager τ) (n : Manager υ) : Prop where
  buildTime_eq : m.options.buildTime = n.options.buildTime
  styles_eq : m.styles = n.styles
  injected_eq : m.injected = n.injected
  extracted_eq : m.extracted = n.extracted
  snapshots_eq (h : m.options.capturesDebug = n.options.capturesDebug) : m.snapshots = n.snapshots
  target : R m.target n.target

section Pairs

variable {τ υ : Type} {R : τ → υ → Prop} {m : Manager τ} {n : Manager υ}

theorem paired_fresh {options other : Options} (h : options.buildTime = other.buildTime)
    {target : τ} {twin : υ} (htarget : R target twin) :
    Paired R (fresh options target) (fresh other twin) :=
  ⟨h, rfl, rfl, rfl, fun _ => rfl, htarget⟩

theorem Paired.isInjected_eq (h : Paired R m n) (id : String) :
    m.isInjected id = n.isInjected id := by
  rw [isInjected, isInjected, h.injected_eq]

/-- Away from their targets, paired managers with the same options are the same. -/
theorem Paired.rebind_eq (h : Paired R m n) (hoptions : m.options = n.options) {ω : Type}
    (target : ω) : m.rebind target = n.rebind target := by
  have hsnapshots := h.snapshots_eq (congrArg Options.capturesDebug hoptions)
  rw [rebind, rebind, hoptions, h.styles_eq, h.injected_eq, hsnapshots, h.extracted_eq]

variable [InjectionTarget τ] [InjectionTarget υ]

theorem paired_addStyle (hR : Lockstep R) (h : Paired R m n) (id css : String)
    (metadata : Option Json) :
    Paired R (m.addStyle id css metadata).value (n.addStyle id css metadata).value := by
  have hinjected := h.isInjected_eq id
  by_cases hknown : m.isInjected id = true
  · have htwin : n.isInjected id = true := hinjected.symm.trans hknown
    rwa [addStyle, if_pos hknown, addStyle, if_pos htwin]
  · have htwin : ¬ n.isInjected id = true := fun h => hknown (hinjected.trans h)
    rw [addStyle, if_neg hknown, addStyle, if_neg htwin]
    refine ⟨h.buildTime_eq, ?_, ?_, h.extracted_eq, fun hcaptures => ?_,
      hR.inject _ _ id css h.target⟩
    · simp only [h.styles_eq]
    · simp only [h.injected_eq]
    · simp only at hcaptures
      simp only [hcaptures, h.snapshots_eq hcaptures]

theorem paired_css (hR : Lockstep R) (h : Paired R m n) (input : StyleInput) :
    (m.css input).value.2 = (n.css input).value.2 ∧
      Paired R (m.css input).value.1 (n.css input).value.1 := by
  have hbuild := h.buildTime_eq
  cases hm : m.options.buildTime with
  | true =>
      rw [hm] at hbuild
      simp only [css, hm, ← hbuild, if_true, Logged.value_bind, Logged.value_pure, true_and]
      exact ⟨h.buildTime_eq, h.styles_eq, h.injected_eq, by rw [h.extracted_eq], h.snapshots_eq,
        h.target⟩
  | false =>
      rw [hm] at hbuild
      simp only [css, hm, ← hbuild, Bool.false_eq_true, if_false, Logged.value_bind,
        Logged.value_pure, true_and]
      exact paired_addStyle hR h input.compile.id input.compile.css none

/-- Both managers answer a call alike, and stay paired. -/
theorem paired_call (hR : Lockstep R) (h : Paired R m n) (c : Call) :
    (m.call c).value.2 = (n.call c).value.2 ∧ Paired R (m.call c).value.1 (n.call c).value.1 := by
  have hinput (input : StyleInput) :
      some (m.css input).value.2 = some (n.css input).value.2 ∧
        Paired R (m.css input).value.1 (n.css input).value.1 :=
    ⟨congrArg some (paired_css hR h input).1, (paired_css hR h input).2⟩
  cases c with
  | addStyle id css metadata => exact ⟨rfl, paired_addStyle hR h id css metadata⟩
  | css input => exact hinput input
  | styled style => exact hinput (.style style)
  | applyStyles css metadata => exact ⟨rfl, paired_addStyle hR h (Digest.ofText css) css metadata⟩
  | clear =>
      exact ⟨rfl, h.buildTime_eq, rfl, rfl, h.extracted_eq, fun _ => rfl, hR.clear _ _ h.target⟩

theorem paired_run (hR : Lockstep R) (h : Paired R m n) (calls : List Call) :
    (m.run calls).value.2 = (n.run calls).value.2 ∧ Paired R (m.after calls) (n.after calls) := by
  induction calls generalizing m n with
  | nil => exact ⟨rfl, h⟩
  | cons c calls ih =>
      obtain ⟨hanswer, hnext⟩ := paired_call hR h c
      obtain ⟨hanswers, hlast⟩ := ih hnext
      exact ⟨congr (congrArg List.cons hanswer) hanswers, hlast⟩

end Pairs

/-- Options other than working for a build, and the target, show in nothing that a run makes: not in
the answers, the registered styles, the ids that count as injected, the report or the extracted CSS.
Targets of one kind that are alike at first are so after the run, whatever the options.  As this
holds of every run it holds after every call of one. -/
theorem output_eq_of_buildTime_eq {options other : Options}
    (hoptions : options.buildTime = other.buildTime) (calls : List Call) :
    (∀ {τ υ : Type} [InjectionTarget τ] [InjectionTarget υ] (target : τ) (twin : υ),
      let a := ((fresh options target).run calls).value
      let b := ((fresh other twin).run calls).value
      a.2 = b.2 ∧ a.1.styles = b.1.styles ∧ (∀ id, a.1.isInjected id = b.1.isInjected id) ∧
        a.1.report = b.1.report ∧ a.1.extractedCss = b.1.extractedCss) ∧
    (∀ {σ ρ : Type} [SheetHost σ] [SheetHost ρ] {R : σ → ρ → Prop}, AlikeSheets R →
      ∀ (host : σ) (twin : ρ), R host twin →
      let a := (fresh options (LiveSheet.mk host)).after calls
      let b := (fresh other (LiveSheet.mk twin)).after calls
      R a.target.sheet b.target.sheet ∧
        SheetHost.count a.target.sheet = SheetHost.count b.target.sheet ∧
        (∀ index, SheetHost.text? a.target.sheet index = SheetHost.text? b.target.sheet index) ∧
        a.injectedCss = b.injectedCss) ∧
    (∀ {ε δ : Type} [ElementHost ε] [ElementHost δ] {R : ε → δ → Prop}, AlikeElements R →
      ∀ (host : ε) (twin : δ), R host twin →
      let a := (fresh options (LiveElement.mk host)).after calls
      let b := (fresh other (LiveElement.mk twin)).after calls
      R a.target.element b.target.element ∧ a.injectedCss = b.injectedCss) ∧
    ∀ sink twin : Sink, sink.collection = twin.collection →
      ((fresh options sink).after calls).target.collection =
        ((fresh other twin).after calls).target.collection := by
  refine ⟨fun {τ υ} _ _ target twin => ?_, fun {σ ρ} _ _ R hR host twin h => ?_,
    fun {ε δ} _ _ R hR host twin h => ?_, fun sink twin h => ?_⟩
  · intro a b
    obtain ⟨hanswers, h⟩ : a.2 = b.2 ∧ Paired (fun _ _ => True) a.1 b.1 :=
      paired_run (lockstep_true τ υ) (paired_fresh hoptions trivial) calls
    refine ⟨hanswers, h.styles_eq, h.isInjected_eq, ?_, ?_⟩
    · rw [report, report, h.styles_eq]
    · rw [extractedCss, extractedCss, h.extracted_eq]
  · intro a b
    have hpaired : Paired _ a b :=
      (paired_run hR.lockstep (paired_fresh hoptions h) calls).2
    exact ⟨hpaired.target, hR.count_eq _ _ hpaired.target, hR.text?_eq _ _ hpaired.target,
      hR.injected_eq hpaired.target⟩
  · intro a b
    have hpaired : Paired _ a b :=
      (paired_run hR.lockstep (paired_fresh hoptions h) calls).2
    exact ⟨hpaired.target, hR.text_eq _ _ hpaired.target⟩
  · exact (paired_run lockstep_sink (paired_fresh hoptions h) calls).2.target

/-- A locked sheet that keeps no rule and hides none goes as a plain one. -/
theorem alikeSheets_unlocked :
    AlikeSheets fun (sheet : Sheet) (locked : LockedSheet) => locked = ⟨sheet, 0, none⟩ := by
  refine ⟨?_, ?_, ?_, ?_⟩
  · rintro sheet _ rfl
    rfl
  · rintro sheet _ rfl index
    rfl
  · rintro sheet _ rfl rule index
    simp only [SheetHost.insert]
    cases sheet.insert rule index with
    | ok grown => exact rfl
    | error refusal => trivial
  · rintro sheet _ rfl index
    simp only [SheetHost.delete, SheetHost.count]
    split
    · next hnone =>
      have hrange : sheet.rules.length ≤ index := Nat.le_trans hnone (Nat.zero_le index)
      rw [Sheet.delete, if_pos hrange]
      trivial
    · cases sheet.delete index with
      | ok shrunk => exact rfl
      | error refusal => trivial

/-- One manager keeps snapshots and has a sheet that refuses a rule and then gives up none; the
other collects in production.  On the sheets of the second pair the clearing leaves nothing. -/
theorem output_eq_of_buildTime_eq_refused :
    let keyed : Options := { Options.production with integrityKey := some "k" }
    let calls : List Call := [.addStyle "a" "\x7b \x7d .d \x7b \x7d" none,
      .css (.template (.raw "color: red;")), .clear, .addStyle "a" ".e \x7b \x7d" (some .null)]
    let a := ((fresh .development (LiveSheet.mk (LockedSheet.mk .empty 9 none))).run calls).value
    let b := ((fresh keyed (Sink.mk .empty)).run calls).value
    let plain := (fresh .development (LiveSheet.mk Sheet.empty)).after calls
    let locked := (fresh keyed (LiveSheet.mk (LockedSheet.mk .empty 0 none))).after calls
    Options.development.buildTime = keyed.buildTime ∧ a.2 = b.2 ∧ a.1.styles = b.1.styles ∧
      a.1.report = b.1.report ∧ a.1.injectedCss ≠ b.1.injectedCss ∧
      locked.target.sheet = ⟨plain.target.sheet, 0, none⟩ ∧
      plain.injectedCss = locked.injectedCss ∧ plain.injectedCss = ".e \x7b \x7d" := by
  intro keyed calls a b plain locked
  have hoptions : Options.development.buildTime = keyed.buildTime := rfl
  obtain ⟨hregistries, hsheets, -, -⟩ := output_eq_of_buildTime_eq hoptions calls
  obtain ⟨hanswers, hstyles, -, hreport, -⟩ :=
    hregistries (LiveSheet.mk (LockedSheet.mk .empty 9 none)) (Sink.mk .empty)
  obtain ⟨hsheet, -, -, hcss⟩ :=
    hsheets alikeSheets_unlocked Sheet.empty (LockedSheet.mk .empty 0 none) rfl
  exact ⟨hoptions, hanswers, hstyles, hreport, by decide +kernel, hsheet, hcss, by decide +kernel⟩

end Manager

end ScopedCss
