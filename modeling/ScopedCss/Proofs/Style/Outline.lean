/-
# Compiled styles read back

A reader that knows nothing of styles takes a text apart by its delimiters alone: a semicolon ends a
declaration, a brace opens a block under the text in front of it, and a brace closes one.  What it
finds is an outline, blocks with their declarations and blocks in order.  Keys and values without
delimiters give a compiled style one outline only, and that is the style itself: every property is
declared once, in the block that it belongs to, and every block stands under the selector that its
key was resolved to (`readBack_compile`).

What is read of a piece of text must not depend on where the piece stands, so `Reads` speaks of
every state of the reader that has no text pending.  Declarations ask for an open block; rules do
not, and that is the difference between the depths.
-/

import Mathlib.Data.List.Forall2
import ScopedCss.Proofs.Style.Split

namespace ScopedCss

/-- What stands at one place of an outline: a declaration, or a block with a header and all that
stands inside of it. -/
inductive Item where
  | declaration (text : List Char)
  | block (header : List Char) (items : List Item)

/-- A character that ends a declaration, or begins or ends a block. -/
def isDelimiter (c : Char) : Bool :=
  c == ';' || c == '\x7b' || c == '\x7d'

/-- A text without delimiters. -/
def Undelimited (cs : List Char) : Prop :=
  ∀ c ∈ cs, isDelimiter c = false

instance (cs : List Char) : Decidable (Undelimited cs) :=
  List.decidableBAll (fun c => isDelimiter c = false) cs

/-- A reading on its way: the text since the last delimiter, the items of the innermost open block
so far, and the headers of all open blocks, each with the items in front of it. -/
structure Reading where
  pending : List Char
  items : List Item
  opened : List (List Char × List Item)

namespace Reading

/-- Before the first character. -/
def start : Reading := ⟨[], [], []⟩

/-- Read one character.  A declaration must stand in a block, and in front of the end of a block
only blanks may be left over. -/
def step (r : Reading) (c : Char) : Option Reading :=
  if c = ';' then
    if r.opened.isEmpty then none
    else some { r with pending := [], items := r.items ++ [.declaration (Text.trim r.pending)] }
  else if c = '\x7b' then
    some ⟨[], [], (Text.trim r.pending, r.items) :: r.opened⟩
  else if c = '\x7d' then
    match r.opened with
    | [] => none
    | (header, before) :: opened =>
      if Text.isAllBlank r.pending then some ⟨[], before ++ [.block header r.items], opened⟩
      else none
  else some { r with pending := r.pending ++ [c] }

/-- Read a text, character by character. -/
def feed (r : Reading) (text : List Char) : Option Reading :=
  text.foldlM step r

/-- The items of a reading, if all blocks are closed and only blanks are left over. -/
def finish? (r : Reading) : Option (List Item) :=
  if r.opened.isEmpty && Text.isAllBlank r.pending then some r.items else none

@[simp] theorem feed_nil (r : Reading) : r.feed [] = some r := rfl

theorem feed_cons (r : Reading) (c : Char) (cs : List Char) :
    r.feed (c :: cs) = (r.step c).bind fun next => next.feed cs := rfl

theorem feed_append (r : Reading) (s t : List Char) :
    r.feed (s ++ t) = (r.feed s).bind fun next => next.feed t :=
  List.foldlM_append

/-- A text without delimiters is left pending. -/
theorem feed_undelimited {text : List Char} (h : Undelimited text) (r : Reading) :
    r.feed text = some { r with pending := r.pending ++ text } := by
  induction text generalizing r with
  | nil => simp
  | cons c text ih =>
      have hc : isDelimiter c = false := h c List.mem_cons_self
      simp only [isDelimiter, Bool.or_eq_false_iff, beq_eq_false_iff_ne] at hc
      have hstep : r.step c = some { r with pending := r.pending ++ [c] } := by
        simp [step, hc]
      rw [feed_cons, hstep, Option.bind_some, ih fun d hd => h d (List.mem_cons_of_mem c hd)]
      simp

end Reading

/-- The outline of a text, if it has one. -/
def readBack (text : String) : Option (List Item) :=
  (Reading.start.feed text.toList).bind Reading.finish?

/-- A text that is read as some items, and leaves only blanks over, wherever it stands at least so
deep. -/
def Reads (depth : Nat) (text : List Char) (items : List Item) : Prop :=
  ∀ r : Reading, depth ≤ r.opened.length → (∀ c ∈ r.pending, Text.isBlank c = true) →
    ∃ blanks : List Char, (∀ c ∈ blanks, Text.isBlank c = true) ∧
      r.feed text = some ⟨blanks, r.items ++ items, r.opened⟩

theorem Undelimited.append {s t : List Char} (hs : Undelimited s) (ht : Undelimited t) :
    Undelimited (s ++ t) :=
  fun c hc => (List.mem_append.1 hc).elim (hs c) (ht c)

namespace Reads

variable {depth : Nat} {s t body selector : List Char} {items more : List Item}

theorem nil (depth : Nat) : Reads depth [] [] :=
  fun r _ hpending => ⟨r.pending, hpending, by simp⟩

theorem space (depth : Nat) : Reads depth [' '] [] := by
  intro r _ hpending
  refine ⟨r.pending ++ [' '], ?_, ?_⟩
  · exact List.forall_mem_append.2 ⟨hpending, List.forall_mem_singleton.2 (by decide)⟩
  · rw [Reading.feed_undelimited (by simp [Undelimited, isDelimiter]), List.append_nil]

theorem append (hs : Reads depth s items) (ht : Reads depth t more) :
    Reads depth (s ++ t) (items ++ more) := by
  intro r hdepth hpending
  obtain ⟨between, hbetween, hfirst⟩ := hs r hdepth hpending
  obtain ⟨blanks, hblanks, hsecond⟩ := ht ⟨between, r.items ++ items, r.opened⟩ hdepth hbetween
  refine ⟨blanks, hblanks, ?_⟩
  rw [Reading.feed_append, hfirst, Option.bind_some, hsecond, List.append_assoc]

theorem of_le {deeper : Nat} (hle : depth ≤ deeper) (h : Reads depth s items) :
    Reads deeper s items :=
  fun r hdepth => h r (Nat.le_trans hle hdepth)

/-- A text that a semicolon ends is a declaration. -/
theorem declaration (hs : Undelimited s) :
    Reads 1 (s ++ [';']) [.declaration (Text.trim s)] := by
  intro r hdepth hpending
  have hopened : r.opened.isEmpty = false := by
    cases hcase : r.opened with
    | nil => simp [hcase] at hdepth
    | cons head tail => rfl
  refine ⟨[], by simp, ?_⟩
  rw [Reading.feed_append, Reading.feed_undelimited hs, Option.bind_some, Reading.feed_cons]
  simp [Reading.step, hopened, Text.trim_append_of_blank hpending]

theorem ruleBody (h : Reads depth body items) : Reads depth (ruleBody body) items := by
  unfold ScopedCss.ruleBody
  split
  · next hnil =>
    subst hnil
    exact (space depth).append h
  · have hspaced := (space depth).append (h.append (space depth))
    rwa [List.append_nil] at hspaced

/-- A rule is a block under its selector, with whatever its body is read as. -/
theorem rule (hselector : Undelimited selector) (h : Reads 1 body items) (depth : Nat) :
    Reads depth (rule selector body) [.block (Text.trim selector) items] := by
  intro r _ hpending
  have hheader : Undelimited (selector ++ [' ']) :=
    hselector.append (by simp [Undelimited, isDelimiter])
  have htrim : Text.trim (r.pending ++ (selector ++ [' '])) = Text.trim selector := by
    rw [Text.trim_append_of_blank hpending,
      Text.trim_append_blank selector (List.forall_mem_singleton.2 (by decide))]
  obtain ⟨blanks, hblanks, hbody⟩ := h.ruleBody
    ⟨[], [], (Text.trim selector, r.items) :: r.opened⟩ (by simp) (by simp)
  have hopening : Reading.step ⟨r.pending ++ (selector ++ [' ']), r.items, r.opened⟩ '\x7b' =
      some ⟨[], [], (Text.trim selector, r.items) :: r.opened⟩ := by
    simp [Reading.step, htrim]
  have hclosing : Reading.step ⟨blanks, [] ++ items, (Text.trim selector, r.items) :: r.opened⟩
      '\x7d' = some ⟨[], r.items ++ [.block (Text.trim selector) items], r.opened⟩ := by
    simpa [Reading.step, Text.isAllBlank] using hblanks
  refine ⟨[], by simp, ?_⟩
  rw [rule_eq, Reading.feed_append, Reading.feed_undelimited hheader, Option.bind_some,
    Reading.feed_cons, hopening, Option.bind_some, Reading.feed_append, hbody, Option.bind_some,
    Reading.feed_cons, hclosing, Option.bind_some, Reading.feed_nil]

/-- Pieces with a space between them are read one after the other. -/
theorem joinWords {parts : List (List Char)}
    (h : List.Forall₂ (fun part item => Reads depth part [item]) parts items) :
    Reads depth (joinWords parts) items := by
  induction h with
  | nil => exact nil depth
  | @cons part item parts items hpart hrest ih =>
      by_cases hnil : parts = []
      · subst hnil
        cases hrest
        rwa [ScopedCss.joinWords, List.intercalate_singleton]
      · rw [joinWords_cons part hnil]
        exact hpart.append ((space depth).append ih)

end Reads

/-! ## The outline of a style -/

/-- A number, or a text without delimiters. -/
def Scalar.Undelimited : Scalar → Prop
  | .text s => ScopedCss.Undelimited s.toList
  | .number _ => True

instance : (value : Scalar) → Decidable value.Undelimited
  | .text s => inferInstanceAs (Decidable (ScopedCss.Undelimited s.toList))
  | .number _ => inferInstanceAs (Decidable True)

namespace Style

/-- A style without delimiters in its keys and texts, at every depth. -/
def Undelimited : Style → Prop
  | .empty => True
  | .property key value rest =>
    ScopedCss.Undelimited key.toList ∧ value.Undelimited ∧ rest.Undelimited
  | .block key body rest =>
    ScopedCss.Undelimited key.toList ∧ body.Undelimited ∧ rest.Undelimited

instance decidableUndelimited : (style : Style) → Decidable style.Undelimited
  | .empty => inferInstanceAs (Decidable True)
  | .property _ _ rest =>
    have := decidableUndelimited rest
    inferInstanceAs (Decidable (_ ∧ _ ∧ _))
  | .block _ body rest =>
    have := decidableUndelimited body
    have := decidableUndelimited rest
    inferInstanceAs (Decidable (_ ∧ _ ∧ _))

/-- A class name: letters, digits, hyphens and underscores. -/
def WordName (name : String) : Prop :=
  ∀ c ∈ name.toList, c.isAlphanum = true ∨ c = '-' ∨ c = '_'

instance (name : String) : Decidable (WordName name) :=
  List.decidableBAll (fun c : Char => c.isAlphanum = true ∨ c = '-' ∨ c = '_') name.toList

/-- The declarations of the properties of a style, in order. -/
def declarationItems : Style → List Item
  | .empty => []
  | .property key value rest =>
    .declaration (Text.trim (Declaration.propertyName key.toList ++ ':' :: ' ' :: value.css)) ::
      declarationItems rest
  | .block _ _ rest => declarationItems rest

/-- The blocks of the blocks of a style, in order.  The header of each is its key resolved against
the scope, which is the scope of what stands inside.  A conditional at-rule keeps its key for a
header, and unless the scope is empty it holds a block for the scope. -/
def blockItems (scope : List Char) : Style → List Item
  | .empty => []
  | .property _ _ rest => blockItems scope rest
  | .block key body rest =>
    let whole := match NestedKey.classify key.toList with
      | .conditional =>
        let inside := declarationItems body ++ blockItems scope body
        .block (Text.trim key.toList)
          (if scope = [] then inside else [.block (Text.trim scope) inside])
      | role =>
        let header := role.resolve key.toList scope
        .block (Text.trim header) (declarationItems body ++ blockItems header body)
    whole :: blockItems scope rest

/-- What stands inside of a block with the given scope: declarations, then blocks. -/
def inside (scope : List Char) (style : Style) : List Item :=
  style.declarationItems ++ style.blockItems scope

/-- The outline that a style should have for a class. -/
def outline (style : Style) (name : String) : List Item :=
  let scope := '.' :: name.toList
  (if style.hasProperty ∨ ¬style.hasBlock then [.block scope style.declarationItems] else []) ++
    style.blockItems scope

end Style

theorem undelimited_propertyName {key : List Char} (h : Undelimited key) :
    Undelimited (Declaration.propertyName key) := by
  unfold Declaration.propertyName
  split
  · exact h
  · intro d hd
    cases hdelimiter : isDelimiter d with
    | false => rfl
    | true =>
        obtain ⟨c, hc, hmem⟩ := List.mem_flatMap.1 hd
        have hclass : d.toNat < 128 ∧ d.isLower = false ∧ d ≠ '-' := by
          simp only [isDelimiter, Bool.or_eq_true, beq_iff_eq] at hdelimiter
          rcases hdelimiter with (rfl | rfl) | rfl <;> decide
        have heq : d = c :=
          Declaration.eq_of_mem_kebabChar_of_ascii hclass.1 hclass.2.1 hclass.2.2 hmem
        rw [← hdelimiter, heq, h c hc]

theorem isDelimiter_of_isNumberChar {c : Char} (h : Number.isNumberChar c = true) :
    isDelimiter c = false := by
  cases hdelimiter : isDelimiter c with
  | false => rfl
  | true =>
      simp only [isDelimiter, Bool.or_eq_true, beq_iff_eq] at hdelimiter
      rcases hdelimiter with (rfl | rfl) | rfl <;> cases h

theorem Scalar.Undelimited.css {value : Scalar} (h : value.Undelimited) :
    ScopedCss.Undelimited value.css := by
  cases value with
  | text s => exact h
  | number n => exact fun c hc => isDelimiter_of_isNumberChar (Number.isNumberChar_of_mem_text hc)

theorem undelimited_resolve {scope key : List Char} (role : NestedKey)
    (hscope : Undelimited scope) (hkey : Undelimited key) :
    Undelimited (role.resolve key scope) := by
  unfold NestedKey.resolve
  split
  · exact hkey
  · split
    · exact hscope.append hkey
    · exact hscope.append hkey
    · exact fun c hc => (NestedKey.mem_replaceParent hc).elim (hscope c) (hkey c)
    · exact hscope.append (List.forall_mem_cons.2 ⟨rfl, hkey⟩)
    · exact hscope
    · exact hkey

theorem isBlank_of_isAlphanum {c : Char} (h : c.isAlphanum = true) : Text.isBlank c = false := by
  have hrange : 48 ≤ c.toNat ∧ c.toNat ≤ 122 := by
    simp [Char.isAlphanum, Char.isAlpha, Char.isUpper, Char.isLower, Char.isDigit,
      UInt32.le_iff_toNat_le] at h
    omega
  simp [Text.isBlank]
  omega

theorem Style.WordName.isNumberChar_or_eq {name : String} (h : WordName name) :
    ∀ c ∈ name.toList, Number.isNumberChar c = true ∨ c = '_' := by
  intro c hc
  rcases h c hc with halnum | rfl | rfl
  · exact .inl (by simp [Number.isNumberChar, halnum])
  · exact .inl (by decide)
  · exact .inr rfl

namespace Style

variable {style : Style}

theorem forall₂_declarations (h : style.Undelimited) :
    List.Forall₂ (fun part item => Reads 1 part [item]) style.declarations
      style.declarationItems := by
  induction style with
  | empty => exact .nil
  | property key value rest ih =>
      refine .cons ?_ (ih h.2.2)
      have hvalue : ScopedCss.Undelimited (':' :: ' ' :: value.css) :=
        List.forall_mem_cons.2 ⟨by decide, List.forall_mem_cons.2 ⟨by decide, h.2.1.css⟩⟩
      have hread := Reads.declaration ((undelimited_propertyName h.1).append hvalue)
      rwa [List.append_assoc] at hread
  | block key body rest ihbody ih => exact ih h.2.2

/-- What stands between the braces of a block is read as what stands inside of it, if the rules of
its blocks are read as blocks. -/
theorem reads_blockText_of (h : style.Undelimited) {scope : List Char}
    (hnested : List.Forall₂ (fun part item => Reads 0 part [item]) (style.nestedRules scope)
      (style.blockItems scope)) : Reads 1 (style.blockText scope) (style.inside scope) := by
  apply Reads.joinWords
  refine List.rel_append (forall₂_declarations h) ?_
  exact hnested.imp fun part item hread => hread.of_le (Nat.zero_le 1)

/-- The rules of the blocks of a style are read as blocks, whatever the scope. -/
theorem forall₂_nestedRules (h : style.Undelimited) {scope : List Char}
    (hscope : ScopedCss.Undelimited scope) :
    List.Forall₂ (fun part item => Reads 0 part [item]) (style.nestedRules scope)
      (style.blockItems scope) := by
  induction style generalizing scope with
  | empty => exact .nil
  | property key value rest ih => exact ih h.2.2 hscope
  | block key body rest ihbody ih =>
      have hbody {inner : List Char} (hinner : ScopedCss.Undelimited inner) :
          Reads 1 (body.blockText inner) (body.inside inner) :=
        reads_blockText_of h.2.1 (ihbody h.2.1 hinner)
      rw [nestedRules_block]
      refine .cons ?_ (ih h.2.2 hscope)
      -- A conditional at-rule hands its scope on to its body; any other key makes a new one of it.
      unfold nestedRule
      simp only
      split
      · next hrole =>
        rw [hrole]
        apply Reads.rule h.1
        split
        · exact hbody hscope
        · exact Reads.rule hscope (hbody hscope) 1
      · next hrole =>
        have hselector := undelimited_resolve (NestedKey.classify key.toList) hscope h.1
        have hread := Reads.rule hselector (hbody hselector) 0
        split
        · next hconditional => exact absurd hconditional hrole
        · exact hread

theorem undelimited_scope {name : String} (h : WordName name) :
    ScopedCss.Undelimited ('.' :: name.toList) := by
  refine List.forall_mem_cons.2 ⟨by decide, fun c hc => ?_⟩
  rcases h.isNumberChar_or_eq c hc with hnumber | rfl
  · exact isDelimiter_of_isNumberChar hnumber
  · decide

theorem trim_scope {name : String} (h : WordName name) :
    Text.trim ('.' :: name.toList) = '.' :: name.toList := by
  have hchars : ∀ c ∈ '.' :: name.toList, Text.isBlank c = false := by
    refine List.forall_mem_cons.2 ⟨by decide, fun c hc => ?_⟩
    rcases h c hc with halnum | rfl | rfl
    · exact isBlank_of_isAlphanum halnum
    · decide
    · decide
  refine Text.trim_eq_self (fun c hc => hchars c ?_) (fun c hc => hchars c ?_)
  · exact List.mem_of_mem_head? hc
  · exact List.mem_of_getLast? hc

/-- The rules of a style are read as its outline. -/
theorem reads_parts (h : style.Undelimited) {name : String} (hname : WordName name) :
    Reads 0 (joinWords (style.parts name)) (style.outline name) := by
  have hscope := undelimited_scope hname
  apply Reads.joinWords
  unfold parts outline
  refine List.rel_append ?_ ?_
  · split
    · have hown := Reads.rule hscope (Reads.joinWords (forall₂_declarations h)) 0
      rw [trim_scope hname] at hown
      exact .cons hown .nil
    · exact .nil
  · rw [← nestedRules_eq]
    exact forall₂_nestedRules h hscope

/-- A compiled style is read back as its outline: nothing is lost, written twice or moved to another
block, at any depth. -/
theorem readBack_compile (h : style.Undelimited) {name : String} (hname : WordName name) :
    readBack (style.compile name) = some (style.outline name) := by
  obtain ⟨blanks, hblanks, hfeed⟩ :=
    reads_parts h hname .start (Nat.zero_le _) (by simp [Reading.start])
  rw [compile_eq_parts, readBack, String.toList_ofList, hfeed]
  simpa [Reading.finish?, Reading.start, Text.isAllBlank] using hblanks

/-- An at-rule in a selector in an at-rule, below them a key without characters, which takes the
scope away from what stands inside of it. -/
theorem readBack_compile_nested :
    let style : Style :=
      .block "@media (w)" (.block "&:hover " (.block "@supports (g)" (.property "zIndex" (.text "1")
          (.block "" (.block "@container" (.property "--x" (.text " 2 ") .empty) .empty) .empty))
        (.property "fontSize" (.number .nan) .empty)) .empty)
      (.property "color" (.text "red") .empty)
    let found : List Item :=
      [.block ".k_1".toList [.declaration "color: red".toList],
        .block "@media (w)".toList [.block ".k_1".toList [.block ".k_1:hover".toList
          [.declaration "font-size: NaN".toList,
            .block "@supports (g)".toList [.block ".k_1:hover".toList
              [.declaration "z-index: 1".toList,
                .block [] [.block "@container".toList [.declaration "--x:  2".toList]]]]]]]]
    style.Undelimited ∧ WordName "k_1" ∧ style.outline "k_1" = found ∧
      readBack (style.compile "k_1") = some found := by
  intro style found
  have hstyle : style.Undelimited := by decide
  have hname : WordName "k_1" := by decide
  have houtline : style.outline "k_1" = found := rfl
  exact ⟨hstyle, hname, houtline, houtline ▸ readBack_compile hstyle hname⟩

end Style

end ScopedCss
