/-
# Reading a style element back

The nonce stands in an attribute between double quotes, escaped, and the CSS stands as it is before
the end of the element.  A reader looks for the first place where something begins
(`Head.cutWhere?`): the attribute, the end of the opening tag, and the end of the element, which it
takes in any letter case.

The attribute is found and read back whatever the nonce is.  That the element ends where it should
rests on the CSS alone: an end of the element begins with `<`, which stands nowhere else in it, so
none can begin in the CSS and go on behind it (`Head.prefix_of_prefix_append`).
-/

import Mathlib.Data.List.Infix
import ScopedCss.Head
import ScopedCss.Proofs.Text.Lowercase

namespace ScopedCss

namespace Head

/-- Cut a text before the first place where something begins; nothing if there is no such place. -/
def cutWhere? (begins : List Char → Bool) : List Char → Option (List Char × List Char)
  | [] => if begins [] then some ([], []) else none
  | c :: cs =>
    if begins (c :: cs) then some ([], c :: cs)
    else (cutWhere? begins cs).map fun cut => (c :: cut.1, cut.2)

/-- Whether a text begins with the end of a style element, in any letter case. -/
def closesStyle (text : List Char) : Bool :=
  "</style".toList.isPrefixOf (text.map Char.toLower)

/-- The text between the first `nonce="` and the next double quote. -/
def nonceText? (text : List Char) : Option (List Char) :=
  (cutWhere? "nonce=\"".toList.isPrefixOf text).map fun cut =>
    (cut.2.drop "nonce=\"".length).takeWhile fun c => c ≠ '"'

/-- The entities that escape a character of an attribute. -/
def entities : List (List Char × Char) :=
  [("&amp;".toList, '&'), ("&quot;".toList, '"'), ("&lt;".toList, '<'), ("&gt;".toList, '>')]

/-- The entity that a text begins with. -/
def entityAt? (text : List Char) : Option (List Char × Char) :=
  entities.find? fun entity => entity.1.isPrefixOf text

/-- Replace entities by their characters. -/
def decodeEntities : List Char → List Char
  | [] => []
  | c :: cs =>
    match entityAt? (c :: cs) with
    | some entity => entity.2 :: decodeEntities (cs.drop (entity.1.length - 1))
    | none => c :: decodeEntities cs
termination_by text => text.length
decreasing_by all_goals simp only [List.length_cons, List.length_drop]; omega

theorem escapeChar_eq (c : Char) :
    (∃ entity ∈ entities, entity.2 = c ∧ escapeChar c = entity.1) ∨
      (c ≠ '&' ∧ c ≠ '"' ∧ c ≠ '<' ∧ c ≠ '>') ∧ escapeChar c = [c] := by
  rw [escapeChar]
  by_cases hamp : c = '&'
  · exact .inl ⟨("&amp;".toList, '&'), by decide, hamp.symm, if_pos hamp⟩
  by_cases hquot : c = '"'
  · exact .inl ⟨("&quot;".toList, '"'), by decide, hquot.symm, by rw [if_neg hamp, if_pos hquot]⟩
  by_cases hlt : c = '<'
  · exact .inl ⟨("&lt;".toList, '<'), by decide, hlt.symm,
      by rw [if_neg hamp, if_neg hquot, if_pos hlt]⟩
  by_cases hgt : c = '>'
  · exact .inl ⟨("&gt;".toList, '>'), by decide, hgt.symm,
      by rw [if_neg hamp, if_neg hquot, if_neg hlt, if_pos hgt]⟩
  exact .inr ⟨⟨hamp, hquot, hlt, hgt⟩,
    by rw [if_neg hamp, if_neg hquot, if_neg hlt, if_neg hgt]⟩

theorem decodeEntities_entity {entity : List Char × Char} (h : entity ∈ entities)
    (rest : List Char) :
    decodeEntities (entity.1 ++ rest) = entity.2 :: decodeEntities rest := by
  simp only [entities, List.mem_cons, List.not_mem_nil, or_false] at h
  rcases h with rfl | rfl | rfl | rfl <;> exact decodeEntities.eq_def _

theorem decodeEntities_cons_of_ne {c : Char} (h : c ≠ '&') (rest : List Char) :
    decodeEntities (c :: rest) = c :: decodeEntities rest := by
  have hnone : entityAt? (c :: rest) = none := by
    simp [entityAt?, entities, Ne.symm h]
  rw [decodeEntities, hnone]

/-- An escaped text is read back. -/
theorem decodeEntities_escapeAttribute (cs : List Char) :
    decodeEntities (escapeAttribute cs) = cs := by
  induction cs with
  | nil => rw [escapeAttribute, List.flatMap_nil, decodeEntities]
  | cons c cs ih =>
      rw [escapeAttribute, List.flatMap_cons, ← escapeAttribute]
      rcases escapeChar_eq c with ⟨entity, hentity, rfl, hc⟩ | ⟨⟨hamp, -⟩, hc⟩
      · rw [hc, decodeEntities_entity hentity, ih]
      · rw [hc, List.singleton_append, decodeEntities_cons_of_ne hamp, ih]

theorem not_special_of_mem_escapeAttribute {cs : List Char} {c : Char}
    (h : c ∈ escapeAttribute cs) : c ≠ '"' ∧ c ≠ '<' ∧ c ≠ '>' := by
  obtain ⟨d, -, hc⟩ := List.mem_flatMap.1 h
  rcases escapeChar_eq d with ⟨entity, hentity, -, hd⟩ | ⟨⟨-, hplain⟩, hd⟩
  · have hall : ∀ entity ∈ entities, ∀ c ∈ entity.1, c ≠ '"' ∧ c ≠ '<' ∧ c ≠ '>' := by
      simp [entities]
    exact hall entity hentity c (hd ▸ hc)
  · rw [hd, List.mem_singleton] at hc
    exact hc ▸ hplain

/-- An ampersand in an escaped text begins an entity. -/
theorem exists_entity_of_suffix {cs rest : List Char} (h : '&' :: rest <:+ escapeAttribute cs) :
    ∃ entity ∈ entities, entity.1 <+: '&' :: rest := by
  induction cs with
  | nil => cases List.suffix_nil.1 h
  | cons c cs ih =>
      rw [escapeAttribute, List.flatMap_cons, ← escapeAttribute] at h
      rcases List.suffix_or_suffix_of_suffix h (List.suffix_append _ _) with hcs | ⟨s, hs⟩
      · exact ih hcs
      obtain ⟨front, hfront⟩ := h
      rw [← hs, ← List.append_assoc, List.append_left_inj] at hfront
      cases s with
      | nil => exact ih (hs ▸ List.suffix_refl _)
      | cons d s =>
          obtain ⟨rfl, -⟩ := List.cons.inj hs
          rcases escapeChar_eq c with ⟨entity, hentity, -, hc⟩ | ⟨⟨hamp, -⟩, hc⟩
          · have hall : ∀ entity ∈ entities, ∀ t ∈ entity.1.tails, t.head? = some '&' →
                t = entity.1 := by decide
            have hs' := hall entity hentity ('&' :: s)
              ((List.mem_tails _ _).2 ⟨front, hfront.trans hc⟩) rfl
            exact ⟨entity, hentity, escapeAttribute cs, hs' ▸ hs⟩
          · have hmem : '&' ∈ escapeChar c :=
              hfront ▸ List.mem_append_right front List.mem_cons_self
            rw [hc, List.mem_singleton] at hmem
            exact absurd hmem.symm hamp

variable {begins : List Char → Bool} {before found rest after : List Char}

theorem cutWhere?_of_begins {text : List Char} (h : begins text = true) :
    cutWhere? begins text = some ([], text) := by
  cases text <;> rw [cutWhere?, if_pos h]

/-- A stretch in which nothing begins is passed over. -/
theorem cutWhere?_append (h : ∀ t, t ≠ [] → t <:+ before → begins (t ++ rest) = false)
    (hrest : cutWhere? begins rest = some (found, after)) :
    cutWhere? begins (before ++ rest) = some (before ++ found, after) := by
  induction before with
  | nil => exact hrest
  | cons c before ih =>
      have hc : begins (c :: (before ++ rest)) = false :=
        h (c :: before) (List.cons_ne_nil c before) (List.suffix_refl _)
      have hbefore := ih fun t ht hsuffix => h t ht (hsuffix.trans (List.suffix_cons c before))
      rw [List.cons_append, cutWhere?, hc, if_neg Bool.false_ne_true, hbefore, Option.map_some,
        List.cons_append]

/-- A stretch of characters that nothing begins with is passed over. -/
theorem cutWhere?_append_of_forall (h : ∀ c ∈ before, ∀ rest, begins (c :: rest) = false)
    (hrest : cutWhere? begins rest = some (found, after)) :
    cutWhere? begins (before ++ rest) = some (before ++ found, after) := by
  refine cutWhere?_append (fun t ht hsuffix => ?_) hrest
  cases t with
  | nil => exact absurd rfl ht
  | cons c t => exact h c (hsuffix.subset List.mem_cons_self) (t ++ rest)

theorem nonceText?_of_cutWhere? {text written : List Char}
    (h : cutWhere? "nonce=\"".toList.isPrefixOf text =
      some (before, "nonce=\"".toList ++ (written ++ '"' :: rest)))
    (hwritten : ∀ c ∈ written, c ≠ '"') : nonceText? text = some written := by
  have hquote : ∀ c ∈ written, decide (c ≠ '"') = true := fun c hc =>
    decide_eq_true (hwritten c hc)
  have hdrop : ("nonce=\"".toList ++ (written ++ '"' :: rest)).drop "nonce=\"".length =
      written ++ '"' :: rest := List.drop_left' rfl
  rw [nonceText?, h, Option.map_some, hdrop, List.takeWhile_append_of_pos hquote,
    List.takeWhile_cons_of_neg (by simp), List.append_nil]

/-- A mark that begins with a character it has nowhere else does not begin in a text and go on
behind it where another such mark stands. -/
theorem prefix_of_prefix_append {mark t : List Char} {c : Char} (hmark : c ∉ mark.tail)
    (ht : t ≠ []) (h : mark <+: t ++ c :: rest) : mark <+: t := by
  rcases List.prefix_or_prefix_of_prefix h (List.prefix_append t _) with hshort | ⟨u, rfl⟩
  · exact hshort
  · cases u with
    | nil => rw [List.append_nil]
    | cons d u =>
        obtain ⟨rfl, -⟩ := List.cons_prefix_cons.1 ((List.prefix_append_right_inj t).1 h)
        cases t with
        | nil => exact absurd rfl ht
        | cons a t => exact absurd (List.mem_append_right t List.mem_cons_self) hmark

theorem isPrefixOf_cons_of_ne {c d : Char} (h : d ≠ c) (mark rest : List Char) :
    (d :: mark).isPrefixOf (c :: rest) = false := by
  rw [List.isPrefixOf_cons_cons, beq_eq_false_iff_ne.2 h, Bool.false_and]

theorem toLower_ne_lt {c : Char} (h : c ≠ '<') : c.toLower ≠ '<' := by
  intro heq
  by_cases hc : c.toNat < 128
  · rcases Text.toLower_ascii hc with hlower | hsame
    · rw [heq] at hlower
      exact absurd hlower (by decide)
    · exact h (hsame.symm.trans heq)
  · have hsame : c.toLower = c :=
      dif_neg fun hupper => hc (lt_of_le_of_lt (UInt32.le_iff_toNat_le.1 hupper.2) (by decide))
    exact h (hsame.symm.trans heq)

theorem closesStyle_cons_of_ne {c : Char} (h : c ≠ '<') (rest : List Char) :
    closesStyle (c :: rest) = false :=
  isPrefixOf_cons_of_ne (toLower_ne_lt h).symm "/style".toList (rest.map Char.toLower)

/-- Where no end of a style element begins in some CSS, none does when an end follows. -/
theorem closesStyle_append_closing {t : List Char} (ht : t ≠ [])
    (h : ¬"</style".toList <:+: t.map Char.toLower) :
    closesStyle (t ++ "</style>".toList) = false := by
  refine Bool.eq_false_iff.2 fun hbegins => h (List.IsPrefix.isInfix ?_)
  rw [closesStyle, List.isPrefixOf_iff_prefix, List.map_append] at hbegins
  exact prefix_of_prefix_append (c := '<') (by decide) (by simpa using ht) hbegins

end Head

namespace HeadInjector

open Head

/-- The opening tag of a style element, but for the character that ends it, with what is written in
place of the nonce. -/
def openingTag (written : List Char) : List Char :=
  "<style id=\"".toList ++ elementId.toList ++ ['"'] ++ (" nonce=\"".toList ++ written ++ ['"'])

theorem styleTag_some (css nonce : String) (done : Bool) :
    (HeadInjector.mk css (some nonce) done).styleTag =
      openingTag (escapeAttribute nonce.toList) ++ '>' :: (css.toList ++ "</style>".toList) := by
  have htag : (HeadInjector.mk css (some nonce) done).styleTag =
      openingTag (escapeAttribute nonce.toList) ++ ['>'] ++ css.toList ++ "</style>".toList := rfl
  rw [htag, List.append_assoc, List.append_assoc, List.singleton_append]

/-- The opening tag begins as a tag does, and nothing behind that opens or ends a tag. -/
theorem exists_openingTag_escapeAttribute (cs : List Char) :
    ∃ rest, openingTag (escapeAttribute cs) = '<' :: 's' :: rest ∧
      ∀ c ∈ 's' :: rest, c ≠ '<' ∧ c ≠ '>' := by
  have hplain : ∀ c ∈ "style id=\"zero-css-ssr\" nonce=\"".toList, c ≠ '<' ∧ c ≠ '>' := by
    simp
  have hwritten : ∀ c ∈ escapeAttribute cs, c ≠ '<' ∧ c ≠ '>' :=
    fun c hc => (not_special_of_mem_escapeAttribute hc).2
  refine ⟨"tyle id=\"zero-css-ssr\" nonce=\"".toList ++ (escapeAttribute cs ++ ['"']), rfl, ?_⟩
  exact List.forall_mem_append.2 ⟨hplain, List.forall_mem_append.2 ⟨hwritten, by simp⟩⟩

/-- The attribute is found whatever the nonce and the CSS are. -/
theorem nonceText?_styleTag (css nonce : String) (done : Bool) :
    nonceText? (HeadInjector.mk css (some nonce) done).styleTag =
      some (escapeAttribute nonce.toList) := by
  have htag : (HeadInjector.mk css (some nonce) done).styleTag =
      "<style id=\"zero-css-ssr\" ".toList ++ ("nonce=\"".toList ++
        (escapeAttribute nonce.toList ++ '"' :: '>' :: (css.toList ++ "</style>".toList))) := by
    have hopening : openingTag (escapeAttribute nonce.toList) =
        "<style id=\"zero-css-ssr\" ".toList ++
          ("nonce=\"".toList ++ (escapeAttribute nonce.toList ++ ['"'])) := rfl
    rw [styleTag_some, hopening, List.append_assoc, List.append_assoc, List.append_assoc,
      List.singleton_append]
  have hmiss : ∀ c ∈ "<style id=\"zero-css-ssr\" ".toList, ∀ rest,
      "nonce=\"".toList.isPrefixOf (c :: rest) = false := by
    intro c hc
    have hne : ∀ c ∈ "<style id=\"zero-css-ssr\" ".toList, 'n' ≠ c := by simp
    exact isPrefixOf_cons_of_ne (hne c hc) "once=\"".toList
  rw [htag]
  exact nonceText?_of_cutWhere? (cutWhere?_append_of_forall hmiss
      (cutWhere?_of_begins (List.isPrefixOf_iff_prefix.2 (List.prefix_append _ _))))
    fun c hc => (not_special_of_mem_escapeAttribute hc).1

/-- The first end of a tag is that of the opening tag. -/
theorem cutWhere?_gt_styleTag (css nonce : String) (done : Bool) :
    cutWhere? ['>'].isPrefixOf (HeadInjector.mk css (some nonce) done).styleTag =
      some (openingTag (escapeAttribute nonce.toList),
        '>' :: (css.toList ++ "</style>".toList)) := by
  obtain ⟨rest, hopening, hplain⟩ := exists_openingTag_escapeAttribute nonce.toList
  have hmiss : ∀ c ∈ openingTag (escapeAttribute nonce.toList), ∀ rest,
      ['>'].isPrefixOf (c :: rest) = false := by
    rw [hopening, List.forall_mem_cons]
    exact ⟨isPrefixOf_cons_of_ne (by decide) [],
      fun c hc => isPrefixOf_cons_of_ne (hplain c hc).2.symm []⟩
  have hend : ['>'].isPrefixOf ('>' :: (css.toList ++ "</style>".toList)) = true := rfl
  have hcut := cutWhere?_append_of_forall hmiss (cutWhere?_of_begins hend)
  rwa [List.append_nil, ← styleTag_some css nonce done] at hcut

/-- The first end of a style element is that of the element itself. -/
theorem cutWhere?_closesStyle_styleTag {css : String}
    (h : ¬"</style".toList <:+: css.toList.map Char.toLower) (nonce : String) (done : Bool) :
    cutWhere? closesStyle (HeadInjector.mk css (some nonce) done).styleTag =
      some (openingTag (escapeAttribute nonce.toList) ++ '>' :: css.toList, "</style>".toList) := by
  obtain ⟨rest, hopening, hplain⟩ := exists_openingTag_escapeAttribute nonce.toList
  -- the stretches: the `<` of the opening tag, the rest of that tag, and the CSS
  have hfirst : closesStyle
      ('<' :: ('s' :: rest ++ '>' :: (css.toList ++ "</style>".toList))) = false := rfl
  have htag : ∀ c ∈ 's' :: rest ++ ['>'], ∀ rest, closesStyle (c :: rest) = false := by
    rw [List.forall_mem_append, List.forall_mem_singleton]
    exact ⟨fun c hc => closesStyle_cons_of_ne (hplain c hc).1, closesStyle_cons_of_ne (by decide)⟩
  have hcss : ∀ t, t ≠ [] → t <:+ css.toList → closesStyle (t ++ "</style>".toList) = false :=
    fun t ht hsuffix => closesStyle_append_closing ht fun hcloses =>
      h (hcloses.trans (hsuffix.map Char.toLower).isInfix)
  have hcut := cutWhere?_append_of_forall htag
    (cutWhere?_append hcss (cutWhere?_of_begins (rfl : closesStyle "</style>".toList = true)))
  rw [List.append_nil, ← List.append_cons, ← List.append_cons] at hcut
  rw [styleTag_some, hopening, List.cons_append, cutWhere?, hfirst, if_neg Bool.false_ne_true,
    hcut, Option.map_some]
  rfl

/-- An injector with another nonce or other CSS writes another element. -/
theorem eq_of_styleTag_eq {other : HeadInjector} {css nonce : String} {done : Bool}
    (h : other.styleTag = (HeadInjector.mk css (some nonce) done).styleTag) :
    other.css = css ∧ other.nonce = some nonce := by
  obtain ⟨css', nonce', done'⟩ := other
  cases nonce' with
  | none =>
      have hplain : (HeadInjector.mk css' none done').styleTag =
          "<style id=\"zero-css-ssr\"".toList ++ '>' :: (css'.toList ++ "</style>".toList) := rfl
      have hnonce : (HeadInjector.mk css (some nonce) done).styleTag =
          "<style id=\"zero-css-ssr\"".toList ++ ' ' :: ("nonce=\"".toList ++
            escapeAttribute nonce.toList ++ ['"'] ++ ['>'] ++ css.toList ++
              "</style>".toList) := rfl
      rw [hplain, hnonce, List.append_cancel_left_eq] at h
      cases h
  | some nonce' =>
      have hwritten := congrArg nonceText? h
      rw [nonceText?_styleTag, nonceText?_styleTag] at hwritten
      have hnonce := congrArg decodeEntities (Option.some.inj hwritten)
      rw [decodeEntities_escapeAttribute, decodeEntities_escapeAttribute] at hnonce
      obtain rfl := String.toList_inj.1 hnonce
      rw [styleTag_some, styleTag_some, List.append_cancel_left_eq, List.cons.injEq,
        List.append_cancel_right_eq] at h
      exact ⟨String.toList_inj.1 h.2, rfl⟩

/-- Where some CSS does not end a style element itself, a reader of the element written for it and
a nonce finds both: the nonce in the attribute, where it is not mistaken for the end of anything and
nothing but the four entities is to be decoded, and the CSS between the first end of a tag and the
first end of a style element.  So no other nonce and no other CSS are written in the same way. -/
theorem styleTag_reads_back {css : String}
    (h : ¬"</style".toList <:+: css.toList.map Char.toLower) (nonce : String) :
    let tag := (HeadInjector.new css (some nonce)).styleTag
    ∃ written,
      nonceText? tag = some written ∧
        (∀ c ∈ written, c ≠ '"' ∧ c ≠ '<' ∧ c ≠ '>') ∧
        (∀ rest, '&' :: rest <:+ written → ∃ entity ∈ entities, entity.1 <+: '&' :: rest) ∧
        decodeEntities written = nonce.toList ∧
        cutWhere? ['>'].isPrefixOf tag =
          some (openingTag written, '>' :: (css.toList ++ "</style>".toList)) ∧
        cutWhere? closesStyle tag =
          some (openingTag written ++ '>' :: css.toList, "</style>".toList) ∧
        ∀ other : HeadInjector, other.styleTag = tag → other.css = css ∧ other.nonce = some nonce :=
  ⟨escapeAttribute nonce.toList, nonceText?_styleTag css nonce false,
    fun _ hc => not_special_of_mem_escapeAttribute hc, fun _ => exists_entity_of_suffix,
    decodeEntities_escapeAttribute nonce.toList, cutWhere?_gt_styleTag css nonce false,
    cutWhere?_closesStyle_styleTag h nonce false, fun _ => eq_of_styleTag_eq⟩

/-- A nonce that holds an entity and ends of both kinds, and CSS with a part of an end at its
end. -/
theorem styleTag_reads_back_partial :
    let tag := (HeadInjector.new "a</styl" (some "&quot;\">")).styleTag
    (∃ written, nonceText? tag = some written ∧ decodeEntities written = "&quot;\">".toList) ∧
      ∃ opening, cutWhere? closesStyle tag = some (opening ++ '>' :: "a</styl".toList,
        "</style>".toList) := by
  have hcss : ¬"</style".toList <:+: "a</styl".toList.map Char.toLower := by decide
  obtain ⟨written, hfound, -, -, hread, -, hcut, -⟩ := styleTag_reads_back hcss "&quot;\">"
  exact ⟨⟨written, hfound, hread⟩, openingTag written, hcut⟩

end HeadInjector

end ScopedCss
