/-
# Properties among blocks

The compiler writes the properties of a style in front of its blocks, wherever they were authored.
So it sees a style through two sequences only, its properties (`Style.properties`) and its blocks
(`Style.blocks`), and how the two are interleaved does not show in the CSS, at no depth
(`Style.compile_eq_of_sameParts`).  Each sequence keeps its own order: nothing is said of styles
that differ in that, since a later declaration overrides an earlier one.
-/

import ScopedCss.Proofs.Style.Decode
import ScopedCss.Proofs.Style.Identity
import ScopedCss.Proofs.Style.Split

namespace ScopedCss

theorem Scalar.SameForm.refl (v : Scalar) : v.SameForm v := by
  cases v <;> rfl

namespace Style

/-- The properties among the entries, in order. -/
def properties : Style → List (String × Scalar)
  | .empty => []
  | .property key value rest => (key, value) :: properties rest
  | .block _ _ rest => properties rest

/-- Two sequences of properties with the same keys and values, in the same order.  Values are the
same if they are equal, or numbers of the same text. -/
def SameProperties (properties others : List (String × Scalar)) : Prop :=
  List.Forall₂ (Json.Keyed Scalar.SameForm) properties others

/-- Two sequences of blocks with the same keys in the same order, whose bodies have the same
properties in the same order, and blocks that agree in turn. -/
inductive SameBlocks : List (String × Style) → List (String × Style) → Prop
  | nil : SameBlocks [] []
  | cons (key : String) {body body' : Style} {rest rest' : List (String × Style)}
      (hproperties : SameProperties body.properties body'.properties)
      (hbody : SameBlocks body.blocks body'.blocks) (hrest : SameBlocks rest rest') :
      SameBlocks ((key, body) :: rest) ((key, body') :: rest')

/-- Two styles with the same properties in the same order, and blocks that agree in order. -/
structure SameParts (a b : Style) : Prop where
  properties : SameProperties a.properties b.properties
  blocks : SameBlocks a.blocks b.blocks

theorem declarations_eq (style : Style) :
    style.declarations =
      style.properties.map fun entry => Declaration.write entry.1.toList entry.2.css := by
  induction style with
  | empty => rfl
  | property key value rest ih => exact congrArg (List.cons _) ih
  | block key body rest _ ih => exact ih

theorem hasBlock_iff (style : Style) : style.hasBlock = true ↔ style.blocks ≠ [] := by
  refine ⟨blocks_ne_nil, fun h => ?_⟩
  induction style with
  | empty => exact absurd rfl h
  | property key value rest ih => exact ih h
  | block key body rest _ ih => rfl

theorem SameProperties.map_write {properties others : List (String × Scalar)}
    (h : SameProperties properties others) :
    properties.map (fun entry => Declaration.write entry.1.toList entry.2.css) =
      others.map fun entry => Declaration.write entry.1.toList entry.2.css := by
  induction h with
  | nil => rfl
  | cons hentry _ ih =>
      rw [List.map_cons, List.map_cons, ih, hentry.1, Scalar.css_eq_of_sameForm hentry.2]

theorem SameProperties.declarations_eq {a b : Style}
    (h : SameProperties a.properties b.properties) : a.declarations = b.declarations := by
  rw [Style.declarations_eq, Style.declarations_eq, h.map_write]

theorem SameBlocks.ne_nil_iff {blocks others : List (String × Style)}
    (h : SameBlocks blocks others) : blocks ≠ [] ↔ others ≠ [] := by
  cases h with
  | nil => exact Iff.rfl
  | cons key hproperties hbody hrest =>
      exact iff_of_true (List.cons_ne_nil _ _) (List.cons_ne_nil _ _)

theorem SameParts.hasBlock_eq {a b : Style} (h : a.SameParts b) : a.hasBlock = b.hasBlock := by
  rw [Bool.eq_iff_iff, hasBlock_iff, hasBlock_iff, h.blocks.ne_nil_iff]

/-- The rules of blocks that agree are the same, for every scope. -/
theorem SameBlocks.map_nestedRule {blocks others : List (String × Style)}
    (h : SameBlocks blocks others) (scope : List Char) :
    blocks.map (fun block => nestedRule scope block.1.toList block.2) =
      others.map fun block => nestedRule scope block.1.toList block.2 := by
  induction h generalizing scope with
  | nil => rfl
  | @cons key body body' rest rest' hproperties _ _ ihbody ihrest =>
      -- The scope inside of a block is resolved from its key, so the bodies must agree for all.
      have hbody (inner : List Char) : body.blockText inner = body'.blockText inner := by
        rw [blockText, blockText, hproperties.declarations_eq, nestedRules_eq, nestedRules_eq,
          ihbody]
      have hrule : nestedRule scope key.toList body = nestedRule scope key.toList body' := by
        simp only [nestedRule, hbody]
      rw [List.map_cons, List.map_cons, hrule, ihrest]

theorem SameParts.nestedRules_eq {a b : Style} (h : a.SameParts b) (scope : List Char) :
    a.nestedRules scope = b.nestedRules scope := by
  rw [Style.nestedRules_eq, Style.nestedRules_eq, h.blocks.map_nestedRule]

/-- Two styles with the same properties in order and the same blocks in order, at every depth,
compile to the same CSS for every class, and to the same text for every scope, however their
properties and blocks are interleaved. -/
theorem compile_eq_of_sameParts {a b : Style} (h : a.SameParts b) :
    (∀ name, a.compile name = b.compile name) ∧
      ∀ scope, a.compileBlock scope = b.compileBlock scope := by
  have hdeclarations := h.properties.declarations_eq
  refine ⟨fun name => ?_, fun scope => ?_⟩
  · simp only [compile, topRules, h.hasBlock_eq, hdeclarations, h.nestedRules_eq]
  · simp only [compileBlock, blockText, hdeclarations, h.nestedRules_eq]

/-- A property behind a block and in front of it, in a style and in a block that keeps its scope;
the two zeros are numbers of one text. -/
theorem compile_eq_of_sameParts_nested :
    let red := Style.property "color" (.text "red")
    let hover (zero : Number) := Style.block ":hover" (.property "x" (.number zero) .empty)
    let a := red (.block "@media print" (hover (.zero true) (red .empty)) .empty)
    let b := Style.block "@media print" (red (hover (.zero false) .empty)) (red .empty)
    a ≠ b ∧ a.SameParts b ∧ a.compile "c" = b.compile "c" ∧
      a.compileBlock "" = b.compileBlock "" := by
  intro red hover a b
  have hred : SameProperties [("color", .text "red")] [("color", .text "red")] :=
    .cons ⟨rfl, .refl _⟩ .nil
  have htext : (Number.zero true).text = (Number.zero false).text := by decide +kernel
  have hzero : SameProperties [("x", .number (.zero true))] [("x", .number (.zero false))] :=
    .cons ⟨rfl, htext⟩ .nil
  have hsame : a.SameParts b := ⟨hred, .cons _ hred (.cons _ hzero .nil .nil) .nil⟩
  obtain ⟨hcompile, hblock⟩ := compile_eq_of_sameParts hsame
  exact ⟨by decide, hsame, hcompile "c", hblock ""⟩

end Style

end ScopedCss
