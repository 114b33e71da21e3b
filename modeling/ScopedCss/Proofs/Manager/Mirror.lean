/-
# What a target shows of a registry

A target that nobody else writes to shows what its manager has registered, whatever the run.  An
element holds the CSS of every registered style, each on its own line.  A sheet holds the acceptable
rules of every registered style behind the rules that the last clearing could not remove.  A
collection, which gives nothing up, holds the registered styles on top of what was collected before
the last clearing.

All three are the replay of the registry (`Manager.Mirrors`) read through one target each; the main
statement is `target_shows_registry`.
-/

import Mathlib
import ScopedCss.Proofs.Manager.Replay
import ScopedCss.Proofs.Target.Sheet

namespace ScopedCss

/-- The CSS of the styles of a registry as an element shows it. -/
def registeredText (styles : Table CompiledStyle) : String :=
  String.join (styles.values.map fun style => style.css ++ "\n")

/-- The rules of the styles of a registry that a sheet takes. -/
def registeredRules (styles : Table CompiledStyle) : List String :=
  styles.values.flatMap fun style => Sheet.acceptedRules style.css

/-- A collection in which the styles of a registry are recorded. -/
def Collection.insertAll (base : Collection) (styles : Table CompiledStyle) : Collection :=
  styles.values.foldl (fun collection style => collection.insert style.id style.css) base

/-- Styles that are new to a collection are put behind what it has, in their order. -/
theorem Collection.styles_insertAll {base : Collection} {styles : Table CompiledStyle}
    (hids : ∀ entry ∈ styles, entry.2.id = entry.1) (hnodup : styles.keys.Nodup)
    (hnew : ∀ id ∈ styles.keys, id ∉ base.ids) :
    (base.insertAll styles).styles =
      base.styles ++ styles.map (Prod.map id CompiledStyle.css) := by
  have hinsert : (base.insertAll styles).styles =
      Table.putAll base.styles (styles.map (Prod.map id CompiledStyle.css)) := by
    clear hnodup hnew
    induction styles generalizing base with
    | nil => rfl
    | cons head rest ih =>
        obtain ⟨id, style⟩ := head
        have hid : style.id = id := hids (id, style) List.mem_cons_self
        subst hid
        exact ih fun entry hentry => hids entry (List.mem_cons_of_mem _ hentry)
  have hkeys : Table.keys (styles.map (Prod.map id CompiledStyle.css)) = styles.keys := by
    rw [Table.keys, List.map_map]
    rfl
  rw [hinsert, Table.putAll_eq_append (hkeys ▸ hnodup) (hkeys ▸ hnew)]

@[simp] theorem replay_nil {τ : Type} [InjectionTarget τ] (base : τ) : replay base [] = base := rfl

theorem replay_cons {τ : Type} [InjectionTarget τ] (base : τ) (id : String)
    (style : CompiledStyle) (rest : Table CompiledStyle) :
    replay base ((id, style) :: rest) =
      replay (InjectionTarget.inject base style.id style.css).1 rest := rfl

/-- An element that reads back what was set and appended shows a replay as text. -/
theorem LiveElement.text_replay {ε : Type} [ElementHost ε]
    (happend : ∀ (element : ε) (more : String),
      ElementHost.text (ElementHost.appendText element more) = ElementHost.text element ++ more)
    (base : LiveElement ε) (styles : Table CompiledStyle) :
    ElementHost.text (replay base styles).element =
      ElementHost.text base.element ++ registeredText styles := by
  induction styles generalizing base with
  | nil => simp [registeredText]
  | cons head rest ih =>
      obtain ⟨id, style⟩ := head
      rw [replay_cons, ih]
      simp only [InjectionTarget.inject, happend, registeredText, Table.values, List.map_cons,
        String.join_cons, String.append_assoc]

section Sheets

open SheetStore

variable {σ : Type} [SheetHost σ] [SheetStore σ]

/-- The rules that the sheet of a manager holds. -/
def Manager.sheetRules (m : Manager (LiveSheet σ)) : List String :=
  (stored m.target.sheet).rules

namespace LiveSheet

theorem stored_inject (live : LiveSheet σ) (id css : String) :
    stored (InjectionTarget.inject live id css).1.sheet =
        ⟨(stored live.sheet).rules ++ Sheet.acceptedRules css⟩ ∧
      kept (InjectionTarget.inject live id css).1.sheet = kept live.sheet := by
  have happended := stored_appendRules live.sheet (Css.splitRules css)
  rw [← Sheet.acceptedRules, Sheet.map_trimString_acceptedRules] at happended
  exact happended

/-- A sheet shows a replay as the acceptable rules of the styles. -/
theorem stored_replay (base : LiveSheet σ) (styles : Table CompiledStyle) :
    stored (replay base styles).sheet =
        ⟨(stored base.sheet).rules ++ registeredRules styles⟩ ∧
      kept (replay base styles).sheet = kept base.sheet := by
  induction styles generalizing base with
  | nil => simp [registeredRules]
  | cons head rest ih =>
      obtain ⟨id, style⟩ := head
      obtain ⟨hstored, hkept⟩ := stored_inject base style.id style.css
      rw [replay_cons, (ih _).1, (ih _).2, hstored, hkept]
      simp [registeredRules, Table.values]

theorem stored_clear (live : LiveSheet σ) :
    stored (InjectionTarget.clear live).1.sheet =
        ⟨(stored live.sheet).rules.take (kept live.sheet)⟩ ∧
      kept (InjectionTarget.clear live).1.sheet = kept live.sheet :=
  stored_removeRules (count_eq live.sheet).symm

theorem emptied_clear (live : LiveSheet σ) :
    Emptied live.sheet (InjectionTarget.clear live).1.sheet :=
  emptied_removeRules (count_eq live.sheet).symm

end LiveSheet

end Sheets

theorem Sink.collection_replay (base : Sink) (styles : Table CompiledStyle) :
    (replay base styles).collection = base.collection.insertAll styles := by
  induction styles generalizing base with
  | nil => rfl
  | cons head rest ih => exact ih _

namespace Manager

variable {τ : Type} [InjectionTarget τ]

/-- Whatever the run, the target is the replay of the registry on some base, and the base has every
property that the first one has and that clearings keep. -/
theorem exists_mirrors_after {base : τ} {m : Manager τ} {P : τ → Prop} (hbase : P base)
    (hclear : ∀ base styles, P base → P (InjectionTarget.clear (replay base styles)).1)
    (h : Mirrors base m) (calls : List Call) : ∃ base, P base ∧ Mirrors base (m.after calls) := by
  induction calls generalizing base m with
  | nil => exact ⟨base, hbase, h⟩
  | cons c calls ih =>
      by_cases hc : c = .clear
      · subst hc
        have hleft := hclear base m.styles hbase
        rw [← h.target_eq] at hleft
        exact ih hleft (mirrors_clear m)
      · exact ih hbase (mirrors_call h hc)

/-- An element shows the CSS of the registered styles, whatever the run. -/
theorem injectedCss_after_of_element {ε : Type} [ElementHost ε] {element : ε}
    (hempty : ElementHost.text element = "")
    (hset : ∀ (element : ε) (text : String),
      ElementHost.text (ElementHost.setText element text) = text)
    (happend : ∀ (element : ε) (more : String),
      ElementHost.text (ElementHost.appendText element more) = ElementHost.text element ++ more)
    (options : Options) (calls : List Call) :
    ((fresh options (LiveElement.mk element)).after calls).injectedCss =
      registeredText ((fresh options (LiveElement.mk element)).after calls).styles := by
  obtain ⟨base, hbase, hmirrors⟩ := exists_mirrors_after
    (P := fun base : LiveElement ε => ElementHost.text base.element = "") hempty
    (fun _ _ _ => hset _ "") (mirrors_fresh options (LiveElement.mk element)) calls
  have hshown := LiveElement.text_replay happend base
    ((fresh options (LiveElement.mk element)).after calls).styles
  rw [← hmirrors.target_eq, hbase, String.empty_append] at hshown
  exact hshown

section Sheets

open SheetStore

variable {σ : Type} [SheetHost σ] [SheetStore σ]

/-- No run changes how many rules a sheet keeps. -/
theorem kept_after (options : Options) (host : σ) (calls : List Call) :
    kept ((fresh options (LiveSheet.mk host)).after calls).target.sheet = kept host := by
  obtain ⟨base, hbase, hmirrors⟩ := exists_mirrors_after
    (P := fun base : LiveSheet σ => kept base.sheet = kept host) rfl
    (fun base styles hbase => by
      rw [(LiveSheet.stored_clear _).2, (LiveSheet.stored_replay base styles).2, hbase])
    (mirrors_fresh options (LiveSheet.mk host)) calls
  rw [hmirrors.target_eq, (LiveSheet.stored_replay base _).2, hbase]

theorem sheetRules_of_mirrors {base : LiveSheet σ} {m : Manager (LiveSheet σ)}
    (h : Mirrors base m) :
    m.sheetRules = (stored base.sheet).rules ++ registeredRules m.styles := by
  rw [sheetRules, h.target_eq, (LiveSheet.stored_replay base m.styles).1]

end Sheets

/-- Every kind of target shows the registry of its manager after every run.  Of a sheet, the rules
in front of those registered are what the last clearing left: as many of the rules that were there
as the sheet keeps.  Registered rules are shown as far as they are acceptable, and these are the
ones that the sheet would take at its end at any time. -/
theorem target_shows_registry (options : Options) (calls : List Call) :
    ((fresh options (LiveElement.mk Element.empty)).after calls).injectedCss =
        registeredText ((fresh options (LiveElement.mk Element.empty)).after calls).styles ∧
    (∀ {ε : Type} [ElementHost ε] (element : ε), ElementHost.text element = "" →
      (∀ (element : ε) (text : String),
        ElementHost.text (ElementHost.setText element text) = text) →
      (∀ (element : ε) (more : String), ElementHost.appendText element more =
        ElementHost.setText element (ElementHost.text element ++ more)) →
      ((fresh options (LiveElement.mk element)).after calls).injectedCss =
        registeredText ((fresh options (LiveElement.mk element)).after calls).styles) ∧
    (∀ {σ : Type} [SheetHost σ] [SheetStore σ] (host : σ),
      (SheetStore.stored host).rules = [] →
      let state := (fresh options (LiveSheet.mk host)).after
      (Call.clear ∉ calls → (state calls).sheetRules = registeredRules (state calls).styles) ∧
      (∀ before since, calls = before ++ .clear :: since → Call.clear ∉ since →
        (state calls).sheetRules =
          (state before).sheetRules.take (SheetStore.kept host) ++
            registeredRules (state calls).styles) ∧
      Emptied (state calls).target.sheet (state (calls ++ [.clear])).target.sheet ∧
      ∀ rule, Sheet.accepts rule = true ↔ ∃ grown, SheetHost.insert (state calls).target.sheet rule
        (SheetHost.count (state calls).target.sheet) = .ok grown) ∧
    (∀ sink : Sink, sink.collection = Collection.empty →
      let state := (fresh options sink).after
      (state calls).injectedCss = "" ∧
      (Call.clear ∉ calls →
        (state calls).target.collection = Collection.empty.insertAll (state calls).styles) ∧
      ∀ before since, calls = before ++ .clear :: since → Call.clear ∉ since →
        (state calls).target.collection =
          (state before).target.collection.insertAll (state calls).styles) := by
  refine ⟨?_, ?_, ?_, ?_⟩
  · exact injectedCss_after_of_element rfl (fun _ _ => rfl) (fun _ _ => rfl) options calls
  · intro ε _ element hempty hset hdefault
    refine injectedCss_after_of_element hempty hset (fun element more => ?_) options calls
    rw [hdefault, hset]
  · intro σ _ _ host hempty state
    refine ⟨fun hcalls => ?_, fun before since hsplit hsince => ?_, ?_,
      LiveSheet.accepts_iff_insert (state calls).target.sheet⟩
    · rw [sheetRules_of_mirrors (mirrors_after_fresh options _ hcalls), hempty, List.nil_append]
    · have hmirrors := mirrors_after_clear (fresh options (LiveSheet.mk host)) before hsince
      rw [← hsplit] at hmirrors
      rw [sheetRules_of_mirrors hmirrors, (LiveSheet.stored_clear _).1, kept_after]
      rfl
    · have hlast := after_append (fresh options (LiveSheet.mk host)) calls [.clear]
      rw [show state (calls ++ [.clear]) = _ from hlast]
      exact LiveSheet.emptied_clear (state calls).target
  · intro sink hempty state
    refine ⟨rfl, fun hcalls => ?_, fun before since hsplit hsince => ?_⟩
    · rw [(mirrors_after_fresh options sink hcalls).target_eq, Sink.collection_replay, hempty]
    · have hmirrors := mirrors_after_clear (fresh options sink) before hsince
      rw [← hsplit] at hmirrors
      rw [hmirrors.target_eq, Sink.collection_replay]
      rfl

/-- A sheet that keeps one rule: of the two rules registered first only the second is removed, and
of the text registered then only the rule with a selector is taken.  A plain element and a
collection take the same run. -/
theorem target_shows_registry_keeping_one :
    let before : List Call := [.addStyle "a" ".a { b: c; } .d { }" none]
    let since : List Call := [.applyStyles "{ } .g { }" none]
    let calls := before ++ .clear :: since
    let sheet := (fresh .development (LiveSheet.mk (LockedSheet.mk .empty 1 none))).after
    let plain := (fresh .development (LiveElement.mk (PlainElement.mk .empty))).after
    let sink := (fresh .development (Sink.mk .empty)).after
    Call.clear ∉ since ∧
      (sheet calls).sheetRules =
        (sheet before).sheetRules.take 1 ++ registeredRules (sheet calls).styles ∧
      (sheet calls).sheetRules = [".a { b: c; }", ".g { }"] ∧
      (plain calls).injectedCss = registeredText (plain calls).styles ∧
      (plain calls).injectedCss = "{ } .g { }\n" ∧
      (sink calls).target.collection =
        (sink before).target.collection.insertAll (sink calls).styles := by
  intro before since calls sheet plain sink
  have hsince : Call.clear ∉ since := by simp [since]
  obtain ⟨-, helement, hsheet, hsink⟩ := target_shows_registry .development calls
  refine ⟨hsince, ?_, by cbv, ?_, by cbv, ?_⟩
  · exact (hsheet (LockedSheet.mk .empty 1 none) rfl).2.1 before since rfl hsince
  · exact helement (PlainElement.mk .empty) rfl (fun _ _ => rfl) (fun _ _ => rfl)
  · exact (hsink (Sink.mk .empty) rfl).2.2 before since rfl hsince

end Manager

end ScopedCss
