/-
# Templates as flat rules

A template is put between braces as it is.  If its text closes what it opens, then it cannot get out
of the braces, and the splitter takes the whole for a single rule, whatever blocks, comments and
quoted braces the text holds (`splitRules_compile_template`).
-/

import ScopedCss.Input
import ScopedCss.Proofs.Css.Complete
import ScopedCss.Proofs.Css.WellFormed
import ScopedCss.Proofs.Number.Text

namespace ScopedCss

namespace Digest

/-- An id holds letters and digits only, so it may continue a name. -/
theorem isNameChar_of_mem_ofText {c : Char} {text : String} (h : c ∈ (ofText text).toList) :
    Css.isNameChar c = true := by
  have hall : ∀ d < 36, Css.isNameChar (Numeral.digitChar d) = true := by decide
  rw [ofText, String.toList_ofList] at h
  exact Numeral.forall_mem_digits (by decide) hall _ c h

end Digest

namespace Css

theorem nameLength_append_space {u : List Char} (hu : ∀ c ∈ u, isNameChar c = true)
    (r : List Char) : nameLength 0 (u ++ ' ' :: r) = u.length := by
  induction u with
  | nil => rfl
  | cons c u ih =>
      obtain ⟨hc, hrest⟩ := List.forall_mem_cons.1 hu
      rw [List.cons_append, nameLength_cons_zero, if_pos hc, ih hrest, List.length_cons,
        Nat.add_comm]

theorem scanName_append_space {u : List Char} (hu : ∀ c ∈ u, isNameChar c = true)
    (r : List Char) : scanName (u ++ ' ' :: r) = (.plain, u.length) := by
  have hlength := nameLength_append_space hu r
  rw [scanName_of_not_round, hlength]
  rw [hlength, List.drop_left' rfl]
  nofun

/-- The selector of a class, and the brace behind it. -/
theorem lex_selector {id : List Char} (hid : ∀ c ∈ id, isNameChar c = true)
    (body : List Char) :
    lex ('.' :: 'z' :: ('c' :: '-' :: id ++ ' ' :: '\x7b' :: body)) =
      [⟨.plain, ['.']⟩, ⟨.plain, 'z' :: 'c' :: '-' :: id⟩, ⟨.blank, [' ']⟩] ++
        ⟨.opening .curly, ['\x7b']⟩ :: lex body := by
  have hpoint (u : List Char) : scan '.' ('z' :: u) = (.plain, 1) := rfl
  have hletter (u : List Char) : scan 'z' u = scanName ('z' :: u) := rfl
  have hspace (u : List Char) : scan ' ' ('\x7b' :: u) = (.blank, 1) := rfl
  have hbrace (u : List Char) : scan '\x7b' u = (.opening .curly, 1) := rfl
  have hchars : ∀ c ∈ 'z' :: 'c' :: '-' :: id, isNameChar c = true := by
    simp only [List.forall_mem_cons]
    exact ⟨rfl, rfl, rfl, hid⟩
  have hname : scan 'z' ('c' :: '-' :: id ++ ' ' :: '\x7b' :: body) =
      (.plain, ('c' :: '-' :: id).length + 1) :=
    (hletter _).trans (scanName_append_space hchars _)
  rw [lex_cons, hpoint, Nat.sub_self, List.take_zero, List.drop_zero, lex_cons, hname,
    Nat.add_sub_cancel, List.take_left' rfl, List.drop_left' rfl, lex_cons, hspace, Nat.sub_self,
    List.take_zero, List.drop_zero, lex_cons, hbrace]
  rfl

/-- A rule for a class around a text. -/
def flatRule (id text : List Char) : List Char :=
  '.' :: 'z' :: ('c' :: '-' :: id ++ ' ' :: '\x7b' :: ' ' :: (text ++ ending))

/-- Around an enclosed text there is one complete rule. -/
theorem completeRule_flatRule {id text : List Char} (hid : ∀ c ∈ id, isNameChar c = true)
    (htext : Enclosed text) : CompleteRule (flatRule id text) := by
  obtain ⟨inner, hinner, hbody⟩ := htext.cons_space.exists_lex
  have hlex := lex_selector hid (' ' :: text ++ ending)
  rw [hbody] at hlex
  change lex (flatRule id text) = _ at hlex
  have hprelude : Prelude [⟨.plain, ['.']⟩, ⟨.plain, 'z' :: 'c' :: '-' :: id⟩, ⟨.blank, [' ']⟩] :=
    .plain rfl <| .plain rfl <|
      .leaf (not_opens_of_isBracket rfl) (ne_closing_of_isBracket rfl .curly) .nil
  refine ⟨?_, ?_, ?_, ?_, ?_⟩
  · rw [hlex]
    rintro x ⟨⟩
    exact ⟨nofun, nofun, nofun⟩
  · rw [hlex]
    exact .intro hprelude rfl hinner rfl
  · have hfront : 3 < Text.byteLength ['.', 'z', 'c', '-'] := by decide
    have hsplit : flatRule id text =
        ['.', 'z', 'c', '-'] ++ (id ++ ' ' :: '\x7b' :: ' ' :: (text ++ ending)) := rfl
    rw [hsplit, Text.byteLength_append]
    exact Nat.lt_add_right _ hfront
  · rintro c ⟨⟩
    rfl
  · intro c hc
    have hsplit : flatRule id text = '.' :: 'z' ::
        ('c' :: '-' :: id ++ ' ' :: '\x7b' :: ' ' :: (text ++ [' '])) ++ ['\x7d'] := by
      simp [flatRule, ending]
    rw [hsplit, List.getLast?_concat] at hc
    obtain rfl := Option.some.inj hc
    rfl

theorem rules_of_completeRule {rule : List Char} (h : CompleteRule rule) :
    rules rule = [rule] := by
  have hcut := cut_rule h.starts h.shape []
  rw [List.append_nil, lex_nil] at hcut
  exact rules_of_cut hcut (List.cons_ne_nil _ _) (List.forall_mem_singleton.2 h)

end Css

theorem css_compile_template (t : Template) :
    (StyleInput.template t).compile.css =
      ".zc-" ++ (StyleInput.template t).compile.id ++ " \x7b " ++ t.css ++ " \x7d" := by
  have hmark (id : String) : "." ++ Digest.className id = ".zc-" ++ id := by
    rw [Digest.className, Digest.classMark, ← String.append_assoc]
    rfl
  rw [← hmark]
  rfl

/-- A template whose text is enclosed injects as one flat rule, and the text stands in it as it
is. -/
theorem splitRules_compile_template (t : Template) (h : Css.Enclosed t.css.toList) :
    let compiled := (StyleInput.template t).compile
    Css.splitRules compiled.css = [compiled.css] ∧
      compiled.css = ".zc-" ++ compiled.id ++ " \x7b " ++ t.css ++ " \x7d" := by
  intro compiled
  have hcss : compiled.css = ".zc-" ++ compiled.id ++ " \x7b " ++ t.css ++ " \x7d" :=
    css_compile_template t
  refine ⟨?_, hcss⟩
  have hlist : compiled.css.toList = Css.flatRule compiled.id.toList t.css.toList := by
    rw [hcss]
    simp [Css.flatRule, Css.ending]
  have hid : ∀ c ∈ compiled.id.toList, Css.isNameChar c = true :=
    fun c => Digest.isNameChar_of_mem_ofText
  rw [Css.splitRules, hlist, Css.rules_of_completeRule (Css.completeRule_flatRule hid h), ← hlist,
    List.map_singleton, String.ofList_toList]

/-- A text with a nested block, with braces in a string, in a comment and in a url, and with a
backslash at its end. -/
theorem splitRules_compile_template_backslash :
    let compiled := (StyleInput.template
      ⟨["a\x7bb:\"\x7d\"\x7d/*\x7d*/c:url(", ") \\"], ["\x7d"]⟩).compile
    Css.splitRules compiled.css = [compiled.css] ∧
      compiled.css = ".zc-" ++ compiled.id ++
        " \x7b a\x7bb:\"\x7d\"\x7d/*\x7d*/c:url(\x7d) \\ \x7d" := by
  generalize htemplate :
    (⟨["a\x7bb:\"\x7d\"\x7d/*\x7d*/c:url(", ") \\"], ["\x7d"]⟩ : Template) = t
  have hcss : t.css = "a\x7bb:\"\x7d\"\x7d/*\x7d*/c:url(\x7d) \\" := by
    rw [← htemplate]
    rfl
  have hcomplete : Css.isComplete t.css.toList = true := by
    rw [hcss]
    cbv
  have hlex : Css.lex t.css.toList =
      [⟨.plain, ['a']⟩, ⟨.opening .curly, ['\x7b']⟩, ⟨.plain, ['b']⟩, ⟨.plain, [':']⟩,
        ⟨.plain, ['"', '\x7d', '"']⟩, ⟨.closing .curly, ['\x7d']⟩,
        ⟨.comment, ['/', '*', '\x7d', '*', '/']⟩, ⟨.plain, ['c']⟩, ⟨.plain, [':']⟩,
        ⟨.plain, ['u', 'r', 'l', '(', '\x7d', ')']⟩, ⟨.blank, [' ']⟩, ⟨.plain, ['\\']⟩] := by
    rw [hcss]
    cbv
  have hbrackets : Css.Inside .curly (Css.lex t.css.toList) := by
    rw [hlex]
    refine .plain rfl (.block rfl (.plain rfl (.plain rfl (.plain rfl .nil))) rfl ?_)
    refine .leaf (Css.not_opens_of_isBracket rfl) (Css.ne_closing_of_isBracket rfl .curly) ?_
    refine .plain rfl (.plain rfl (.plain rfl ?_))
    refine .leaf (Css.not_opens_of_isBracket rfl) (Css.ne_closing_of_isBracket rfl .curly) ?_
    exact .plain rfl .nil
  obtain ⟨hsplit, htext⟩ := splitRules_compile_template t ⟨hcomplete, hbrackets⟩
  refine ⟨hsplit, htext.trans ?_⟩
  rw [hcss]
  simp only [String.append_assoc]
  rfl

end ScopedCss
