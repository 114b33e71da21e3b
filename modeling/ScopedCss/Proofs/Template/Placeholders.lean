/-
# Reading placeholders

A source in which placeholders are marked is read as literal segments and the bodies between the
marks.  What may be a reading is said without the scanner: no segment holds the mark, the braces of
every body balance, and the pieces written one after the other are the source (`Reading`).  The
scanner finds a reading exactly when there is one, and there is never a second.  So nothing of the
source is lost or invented, and a template made of it is the source with its placeholders replaced,
each by its value (`split_ok_iff_reading`).

Bodies are not read as expressions here; they are any texts whose braces balance.
-/

import Mathlib.Data.List.Infix
import ScopedCss.Template

namespace ScopedCss

namespace Placeholders

/-- What begins a placeholder. -/
def mark : List Char := ['$', '\x7b']

/-- A placeholder with the given body. -/
def placeholder (body : String) : String :=
  "$\x7b" ++ body ++ "\x7d"

/-- Whether a text closes all braces that it opens and so many more, and no prefix of it closes
too many. -/
structure Balances (depth : Nat) (text : List Char) : Prop where
  front : ∀ u, u <+: text → u.count '\x7d' ≤ depth + u.count '\x7b'
  total : text.count '\x7d' = depth + text.count '\x7b'

/-- What may stand between the braces of a placeholder. -/
structure IsBody (body : List Char) : Prop where
  trim_ne_nil : Text.trim body ≠ []
  balances : Balances 0 body

/-- A way to read a source as segments and bodies. -/
structure Reading (source : String) (segments bodies : List String) : Prop where
  length_eq : segments.length = bodies.length + 1
  unmarked : ∀ segment ∈ segments, ¬mark <:+: segment.toList
  isBody : ∀ body ∈ bodies, IsBody body.toList
  text : interpolate segments (bodies.map placeholder) = source

section Balances

variable {depth : Nat} {c : Char} {cs : List Char}

theorem balances_nil : Balances depth [] ↔ depth = 0 := by
  constructor
  · intro h
    simpa using h.total.symm
  · rintro rfl
    refine ⟨fun u hu => ?_, rfl⟩
    rw [List.prefix_nil.1 hu]
    rfl

theorem balances_cons : Balances depth (c :: cs) ↔
    (∀ u, u <+: cs → (c :: u).count '\x7d' ≤ depth + (c :: u).count '\x7b') ∧
      (c :: cs).count '\x7d' = depth + (c :: cs).count '\x7b' := by
  constructor
  · intro h
    exact ⟨fun u hu => h.front _ (List.cons_prefix_cons.2 ⟨rfl, hu⟩), h.total⟩
  · rintro ⟨hfront, htotal⟩
    refine ⟨fun u hu => ?_, htotal⟩
    cases u with
    | nil => exact Nat.zero_le _
    | cons d u =>
        obtain ⟨rfl, hrest⟩ := List.cons_prefix_cons.1 hu
        exact hfront u hrest

theorem balances_opener : Balances depth ('\x7b' :: cs) ↔ Balances (depth + 1) cs := by
  rw [balances_cons]
  simp only [List.count_cons_self, List.count_cons_of_ne (show '\x7b' ≠ '\x7d' by decide)]
  constructor
  · rintro ⟨hfront, htotal⟩
    exact ⟨fun u hu => by have := hfront u hu; omega, by omega⟩
  · intro h
    exact ⟨fun u hu => by have := h.front u hu; omega, by have := h.total; omega⟩

theorem balances_closer : Balances (depth + 1) ('\x7d' :: cs) ↔ Balances depth cs := by
  rw [balances_cons]
  simp only [List.count_cons_self, List.count_cons_of_ne (show '\x7d' ≠ '\x7b' by decide)]
  constructor
  · rintro ⟨hfront, htotal⟩
    exact ⟨fun u hu => by have := hfront u hu; omega, by omega⟩
  · intro h
    exact ⟨fun u hu => by have := h.front u hu; omega, by have := h.total; omega⟩

theorem not_balances_closer : ¬Balances 0 ('\x7d' :: cs) := by
  intro h
  have hone := h.front ['\x7d'] (List.cons_prefix_cons.2 ⟨rfl, List.nil_prefix⟩)
  exact absurd hone (by decide)

theorem balances_other (hopener : c ≠ '\x7b') (hcloser : c ≠ '\x7d') :
    Balances depth (c :: cs) ↔ Balances depth cs := by
  rw [balances_cons]
  simp only [List.count_cons_of_ne hopener, List.count_cons_of_ne hcloser]
  exact ⟨fun h => ⟨h.1, h.2⟩, fun h => ⟨h.front, h.total⟩⟩

end Balances

/-- A text that balances is passed over by the scanner for the end of a placeholder. -/
theorem closing?_append {depth : Nat} {body : List Char} (h : Balances depth body)
    (rest : List Char) : closing? depth (body ++ '\x7d' :: rest) = some (body, rest) := by
  induction body generalizing depth with
  | nil => simp [closing?, balances_nil.1 h]
  | cons c body ih =>
      rw [List.cons_append]
      by_cases hcloser : c = '\x7d'
      · subst hcloser
        cases depth with
        | zero => exact absurd h not_balances_closer
        | succ outer => simp [closing?, ih (balances_closer.1 h)]
      · by_cases hopener : c = '\x7b'
        · subst hopener
          simp [closing?, ih (balances_opener.1 h)]
        · simp [closing?, hcloser, hopener, ih ((balances_other hopener hcloser).1 h)]

/-- The scanner for the end of a placeholder passes over nothing but what balances. -/
theorem balances_of_closing? {depth : Nat} {cs body rest : List Char}
    (h : closing? depth cs = some (body, rest)) :
    cs = body ++ '\x7d' :: rest ∧ Balances depth body := by
  induction cs generalizing depth body with
  | nil => simp [closing?] at h
  | cons c cs ih =>
      by_cases hcloser : c = '\x7d'
      · subst hcloser
        cases depth with
        | zero =>
            simp only [closing?, if_true, Option.some.injEq, Prod.mk.injEq] at h
            obtain ⟨rfl, rfl⟩ := h
            exact ⟨rfl, balances_nil.2 rfl⟩
        | succ outer =>
            simp only [closing?, if_true] at h
            obtain ⟨⟨inner, _⟩, hinner, heq⟩ := Option.map_eq_some_iff.1 h
            obtain ⟨rfl, rfl⟩ := Prod.mk.inj heq
            obtain ⟨rfl, hbalances⟩ := ih hinner
            exact ⟨rfl, balances_closer.2 hbalances⟩
      · simp only [closing?, if_neg hcloser] at h
        obtain ⟨⟨inner, _⟩, hinner, heq⟩ := Option.map_eq_some_iff.1 h
        obtain ⟨rfl, rfl⟩ := Prod.mk.inj heq
        obtain ⟨rfl, hbalances⟩ := ih hinner
        refine ⟨rfl, ?_⟩
        by_cases hopener : c = '\x7b'
        · subst hopener
          exact balances_opener.2 hbalances
        · rw [if_neg hopener] at hbalances
          exact (balances_other hopener hcloser).2 hbalances

theorem mark_isInfix_cons {c d : Char} {cs : List Char} :
    mark <:+: c :: d :: cs ↔ c = '$' ∧ d = '\x7b' ∨ mark <:+: d :: cs := by
  simp [mark, List.infix_cons_iff, List.cons_prefix_cons, eq_comm]

theorem not_mark_isInfix_singleton (c : Char) : ¬mark <:+: [c] := by
  intro h
  exact absurd h.length_le (by simp [mark])

/-- A segment without the mark ends where the scanner finds the next placeholder. -/
theorem opening?_append {segment : List Char} (h : ¬mark <:+: segment) (rest : List Char) :
    opening? (segment ++ '$' :: '\x7b' :: rest) = some (segment, rest) := by
  induction segment with
  | nil => simp [opening?]
  | cons c segment ih =>
      cases segment with
      | nil => simp [opening?]
      | cons d segment =>
          rw [mark_isInfix_cons, not_or] at h
          have hrest := ih h.2
          simp only [List.cons_append] at hrest ⊢
          simp [opening?, h.1, hrest]

/-- The scanner finds the first mark of a text. -/
theorem unmarked_of_opening? {cs segment rest : List Char}
    (h : opening? cs = some (segment, rest)) :
    cs = segment ++ '$' :: '\x7b' :: rest ∧ ¬mark <:+: segment := by
  fun_induction opening? cs generalizing segment with
  | case1 => simp at h
  | case2 => simp at h
  | case3 c d cs hmark =>
      obtain ⟨rfl, rfl⟩ := hmark
      obtain ⟨rfl, rfl⟩ := Prod.mk.inj (Option.some.inj h)
      exact ⟨rfl, by decide⟩
  | case4 c d cs hmark ih =>
      obtain ⟨⟨found, _⟩, hfound, heq⟩ := Option.map_eq_some_iff.1 h
      obtain ⟨rfl, rfl⟩ := Prod.mk.inj heq
      obtain ⟨htext, hunmarked⟩ := ih hfound
      refine ⟨by rw [htext, List.cons_append], ?_⟩
      cases found with
      | nil => exact not_mark_isInfix_singleton c
      | cons e found =>
          obtain ⟨rfl, -⟩ := List.cons.inj htext
          rw [mark_isInfix_cons, not_or]
          exact ⟨hmark, hunmarked⟩

/-- A text without the mark has no placeholder. -/
theorem opening?_eq_none_iff {cs : List Char} : opening? cs = none ↔ ¬mark <:+: cs := by
  fun_induction opening? cs with
  | case1 => simp [mark]
  | case2 c => simp [not_mark_isInfix_singleton]
  | case3 c d cs hmark => simp [mark_isInfix_cons, hmark]
  | case4 c d cs hmark ih => simp [mark_isInfix_cons, hmark, ih]

section Reading

variable {source segment body : String} {segments bodies : List String}

theorem interpolate_cons (s : String) {segments : List String} (hne : segments ≠ []) (v : String)
    (values : List String) :
    interpolate (s :: segments) (v :: values) = s ++ (v ++ interpolate segments values) := by
  obtain ⟨s', segments, rfl⟩ := List.exists_cons_of_ne_nil hne
  simp [interpolate, interpolateRest, String.append_assoc]

theorem reading_segment : Reading source [segment] [] ↔
    ¬mark <:+: segment.toList ∧ segment = source := by
  constructor
  · intro h
    exact ⟨h.unmarked segment List.mem_cons_self,
      by simpa [interpolate, interpolateRest] using h.text⟩
  · rintro ⟨hunmarked, rfl⟩
    exact ⟨rfl, by simpa using hunmarked, by simp, by simp [interpolate, interpolateRest]⟩

/-- A reading with a placeholder is a reading of what follows the placeholder. -/
theorem reading_cons : Reading source (segment :: segments) (body :: bodies) ↔
    ¬mark <:+: segment.toList ∧ IsBody body.toList ∧ ∃ rest,
      source = segment ++ (placeholder body ++ rest) ∧ Reading rest segments bodies := by
  have hne (hlength : segments.length = bodies.length + 1) : segments ≠ [] := by
    rintro rfl
    cases hlength
  constructor
  · intro h
    have hlength := Nat.succ.inj h.length_eq
    refine ⟨h.unmarked _ List.mem_cons_self, h.isBody _ List.mem_cons_self, _, ?_, hlength,
      fun s hs => h.unmarked s (List.mem_cons_of_mem _ hs),
      fun b hb => h.isBody b (List.mem_cons_of_mem _ hb), rfl⟩
    rw [← h.text, List.map_cons, interpolate_cons _ (hne hlength)]
  · rintro ⟨hunmarked, hbody, rest, rfl, h⟩
    refine ⟨congrArg Nat.succ h.length_eq, List.forall_mem_cons.2 ⟨hunmarked, h.unmarked⟩,
      List.forall_mem_cons.2 ⟨hbody, h.isBody⟩, ?_⟩
    rw [List.map_cons, interpolate_cons _ (hne h.length_eq), h.text]

theorem toList_placeholder (body rest : String) :
    (placeholder body ++ rest).toList =
      '$' :: '\x7b' :: (body.toList ++ '\x7d' :: rest.toList) := by
  simp [placeholder]

/-- A reading has one more segment than bodies. -/
theorem Reading.exists_cons (h : Reading source segments bodies) :
    ∃ segment others, segments = segment :: others ∧ others.length = bodies.length := by
  cases segments with
  | nil => cases h.length_eq
  | cons segment others => exact ⟨segment, others, rfl, Nat.succ.inj h.length_eq⟩

/-- A source without the mark is one segment. -/
theorem split_of_unmarked {cs : List Char} (h : ¬mark <:+: cs) : split cs = .ok ⟨[cs], []⟩ := by
  have hopening := opening?_eq_none_iff.2 h
  rw [split]
  split
  · rfl
  · next hfound => cases hopening.symm.trans hfound

/-- The first placeholder of a source is taken off, and the rest is separated in the same way. -/
theorem split_append {segment body : List Char} (hsegment : ¬mark <:+: segment)
    (hbody : IsBody body) (rest : List Char) :
    split (segment ++ '$' :: '\x7b' :: (body ++ '\x7d' :: rest)) =
      (split rest).map fun tail =>
        ⟨segment :: tail.segments, Text.trim body :: tail.expressions⟩ := by
  have hopening := opening?_append hsegment (body ++ '\x7d' :: rest)
  have hclosing := closing?_append hbody.balances rest
  rw [split]
  split
  · next hfound => cases hopening.symm.trans hfound
  · next hfound =>
    cases hopening.symm.trans hfound
    split
    · next hfound => cases hclosing.symm.trans hfound
    · next hfound =>
      cases hclosing.symm.trans hfound
      rw [if_neg hbody.trim_ne_nil]
      cases split rest <;> rfl

/-- The scanner finds the segments and the trimmed bodies of a reading. -/
theorem split_of_reading (h : Reading source segments bodies) :
    split source.toList =
      .ok ⟨segments.map String.toList, bodies.map fun body => Text.trim body.toList⟩ := by
  induction bodies generalizing source segments with
  | nil =>
      obtain ⟨segment, others, rfl, hothers⟩ := h.exists_cons
      obtain rfl := List.eq_nil_of_length_eq_zero hothers
      obtain ⟨hunmarked, rfl⟩ := reading_segment.1 h
      exact split_of_unmarked hunmarked
  | cons body bodies ih =>
      obtain ⟨segment, others, rfl, -⟩ := h.exists_cons
      obtain ⟨hunmarked, hbody, rest, rfl, hrest⟩ := reading_cons.1 h
      rw [String.toList_append, toList_placeholder, split_append hunmarked hbody, ih hrest]
      rfl

/-- What the scanner accepts has a reading. -/
theorem exists_reading_of_split {cs : List Char} {parts : Placeholders}
    (h : split cs = .ok parts) : ∃ segments bodies, Reading (String.ofList cs) segments bodies := by
  fun_induction split cs generalizing parts with
  | case1 cs hopen =>
      refine ⟨[String.ofList cs], [], reading_segment.2 ⟨?_, rfl⟩⟩
      rw [String.toList_ofList]
      exact opening?_eq_none_iff.1 hopen
  | case2 => cases h
  | case3 => cases h
  | case4 cs segment afterMark hopen expression rest hclose hblank tail htail ih =>
      obtain ⟨rfl, hunmarked⟩ := unmarked_of_opening? hopen
      obtain ⟨rfl, hbalances⟩ := balances_of_closing? hclose
      obtain ⟨segments, bodies, hrest⟩ := ih htail
      refine ⟨String.ofList segment :: segments, String.ofList expression :: bodies,
        reading_cons.2 ⟨?_, ?_, _, ?_, hrest⟩⟩
      · rwa [String.toList_ofList]
      · rw [String.toList_ofList]
        exact ⟨hblank, hbalances⟩
      · rw [← String.toList_inj, String.toList_append, toList_placeholder]
        simp
  | case5 => cases h

theorem mark_isInfix_append (u rest : List Char) : mark <:+: u ++ '$' :: '\x7b' :: rest :=
  ⟨u, rest, by rw [mark, List.append_assoc]; rfl⟩

/-- A text without the mark is read as one segment only. -/
theorem Reading.eq_segment (h : Reading source segments bodies)
    (hunmarked : ¬mark <:+: source.toList) : segments = [source] ∧ bodies = [] := by
  obtain ⟨segment, others, rfl, hothers⟩ := h.exists_cons
  cases bodies with
  | nil =>
      obtain rfl := List.eq_nil_of_length_eq_zero hothers
      obtain ⟨-, rfl⟩ := reading_segment.1 h
      exact ⟨rfl, rfl⟩
  | cons body bodies =>
      obtain ⟨-, -, rest, rfl, -⟩ := reading_cons.1 h
      rw [String.toList_append, toList_placeholder] at hunmarked
      exact absurd (mark_isInfix_append _ _) hunmarked

/-- A text that begins with an unmarked segment and a placeholder is read as these first. -/
theorem Reading.eq_cons {rest : String} (hunmarked : ¬mark <:+: segment.toList)
    (hbody : IsBody body.toList)
    (h : Reading (segment ++ (placeholder body ++ rest)) segments bodies) :
    ∃ segments' bodies', segments = segment :: segments' ∧ bodies = body :: bodies' ∧
      Reading rest segments' bodies' := by
  have htext : (segment ++ (placeholder body ++ rest)).toList =
      segment.toList ++ '$' :: '\x7b' :: (body.toList ++ '\x7d' :: rest.toList) := by
    rw [String.toList_append, toList_placeholder]
  obtain ⟨segment', others, rfl, hothers⟩ := h.exists_cons
  cases bodies with
  | nil =>
      obtain rfl := List.eq_nil_of_length_eq_zero hothers
      obtain ⟨hunmarked', rfl⟩ := reading_segment.1 h
      rw [htext] at hunmarked'
      exact absurd (mark_isInfix_append _ _) hunmarked'
  | cons body' bodies =>
      obtain ⟨hunmarked', hbody', rest', heq, hrest⟩ := reading_cons.1 h
      rw [← String.toList_inj, htext, String.toList_append, toList_placeholder] at heq
      -- Both ways to write the text begin with what the scanners find first.
      have hopening := opening?_append hunmarked (body.toList ++ '\x7d' :: rest.toList)
      rw [heq, opening?_append hunmarked', Option.some.injEq, Prod.mk.injEq] at hopening
      have hclosing := closing?_append hbody.balances rest.toList
      rw [← hopening.2, closing?_append hbody'.balances, Option.some.injEq,
        Prod.mk.injEq] at hclosing
      obtain rfl := String.toList_inj.1 hopening.1
      obtain rfl := String.toList_inj.1 hclosing.1
      obtain rfl := String.toList_inj.1 hclosing.2
      exact ⟨others, bodies, rfl, rfl, hrest⟩

/-- A source has one reading at most. -/
theorem Reading.unique {segments' bodies' : List String} (h : Reading source segments bodies)
    (h' : Reading source segments' bodies') : segments' = segments ∧ bodies' = bodies := by
  induction bodies generalizing source segments segments' bodies' with
  | nil =>
      obtain ⟨segment, others, rfl, hothers⟩ := h.exists_cons
      obtain rfl := List.eq_nil_of_length_eq_zero hothers
      obtain ⟨hunmarked, rfl⟩ := reading_segment.1 h
      exact h'.eq_segment hunmarked
  | cons body bodies ih =>
      obtain ⟨segment, others, rfl, -⟩ := h.exists_cons
      obtain ⟨hunmarked, hbody, rest, rfl, hrest⟩ := reading_cons.1 h
      obtain ⟨segments', bodies', rfl, rfl, hrest'⟩ := h'.eq_cons hunmarked hbody
      obtain ⟨rfl, rfl⟩ := ih hrest hrest'
      exact ⟨rfl, rfl⟩

end Reading

/-! ## Replacing placeholders -/

/-- A stretch of a text, from one position to before another. -/
structure Span where
  start : Nat
  stop : Nat
deriving DecidableEq, Repr

/-- The characters of a text in a stretch. -/
def Span.of (span : Span) (text : List Char) : List Char :=
  (text.take span.stop).drop span.start

/-- A text from a position on, with each of the given stretches replaced by its value. -/
def replaced (text : List Char) (position : Nat) : List (Span × String) → List Char
  | [] => text.drop position
  | (span, value) :: edits =>
    (Span.mk position span.start).of text ++ value.toList ++ replaced text span.stop edits

/-- Where the placeholders of a reading stand, if its first segment begins at a position. -/
def spansFrom (position : Nat) : List String → List String → List Span
  | segment :: segments, body :: bodies =>
    let start := position + segment.toList.length
    let stop := start + (placeholder body).toList.length
    ⟨start, stop⟩ :: spansFrom stop segments bodies
  | _, _ => []

/-- Stretches of a source that hold one placeholder each, from left to right and without overlap. -/
structure Placed (source : List Char) (spans : List Span) (bodies : List String) : Prop where
  ordered : spans.Pairwise fun earlier later => earlier.stop ≤ later.start
  held : List.Forall₂ (fun span body => span.of source = (placeholder body).toList) spans bodies

section Spans

variable {source : String} {segments bodies : List String}

theorem le_start_of_mem_spansFrom {span : Span} {position : Nat}
    (h : span ∈ spansFrom position segments bodies) : position ≤ span.start := by
  fun_induction spansFrom position segments bodies with
  | case1 position segment segments body bodies start stop ih =>
      rcases List.mem_cons.1 h with rfl | h
      · exact Nat.le_add_right _ _
      · have hstop := ih h
        omega
  | case2 => cases h

theorem Span.of_middle (before middle after : List Char) :
    (Span.mk before.length (before.length + middle.length)).of (before ++ (middle ++ after)) =
      middle := by
  simp [Span.of, List.take_length_add_append, List.take_left']

/-- The placeholders of a reading stand in order, each where it is written. -/
theorem placed_spansFrom (h : Reading source segments bodies) (before : List Char) :
    Placed (before ++ source.toList) (spansFrom before.length segments bodies) bodies := by
  induction bodies generalizing source segments before with
  | nil =>
      obtain ⟨segment, others, rfl, -⟩ := h.exists_cons
      exact ⟨.nil, .nil⟩
  | cons body bodies ih =>
      obtain ⟨segment, others, rfl, -⟩ := h.exists_cons
      obtain ⟨-, -, rest, rfl, hrest⟩ := reading_cons.1 h
      have hplaced := ih hrest (before ++ segment.toList ++ (placeholder body).toList)
      have hheld := Span.of_middle (before ++ segment.toList) (placeholder body).toList rest.toList
      simp only [List.length_append, List.append_assoc, ← Nat.add_assoc] at hplaced hheld
      simp only [String.toList_append, spansFrom]
      exact ⟨.cons (fun span hspan => le_start_of_mem_spansFrom hspan) hplaced.ordered,
        .cons hheld hplaced.held⟩

/-- Interpolating values into the segments of a reading replaces its placeholders. -/
theorem replaced_spansFrom (h : Reading source segments bodies) {values : List String}
    (hlength : values.length = bodies.length) (before : List Char) :
    replaced (before ++ source.toList) before.length
        ((spansFrom before.length segments bodies).zip values) =
      (interpolate segments values).toList := by
  induction bodies generalizing source segments values before with
  | nil =>
      obtain ⟨segment, others, rfl, hothers⟩ := h.exists_cons
      obtain rfl := List.eq_nil_of_length_eq_zero hothers
      obtain rfl := List.eq_nil_of_length_eq_zero hlength
      obtain ⟨-, rfl⟩ := reading_segment.1 h
      simp [spansFrom, replaced, interpolate, interpolateRest]
  | cons body bodies ih =>
      obtain ⟨segment, others, rfl, hothers⟩ := h.exists_cons
      obtain ⟨-, -, rest, rfl, hrest⟩ := reading_cons.1 h
      obtain ⟨value, values, rfl⟩ := List.exists_cons_of_length_eq_add_one hlength
      have hne : others ≠ [] := by
        rintro rfl
        cases hothers
      have hreplaced := ih hrest (Nat.succ.inj hlength)
        (before ++ segment.toList ++ (placeholder body).toList)
      have hkept := Span.of_middle before segment.toList ((placeholder body).toList ++ rest.toList)
      simp only [List.length_append, List.append_assoc, ← Nat.add_assoc] at hreplaced
      rw [interpolate_cons _ hne]
      simp only [String.toList_append, spansFrom, List.zip_cons_cons, replaced, hkept, hreplaced,
        List.append_assoc]

end Spans

/-- A source is accepted exactly when it has a reading.  The reading is then the only one, the
scanner finds its segments and trimmed bodies, and a template of the source is the source with the
placeholders replaced where they stand, each by its value. -/
theorem split_ok_iff_reading (source : String) :
    ((∃ parts, split source.toList = .ok parts) ↔
        ∃ segments bodies, Reading source segments bodies) ∧
      ∀ segments bodies, Reading source segments bodies →
        (∀ segments' bodies', Reading source segments' bodies' →
          segments' = segments ∧ bodies' = bodies) ∧
        split source.toList =
          .ok ⟨segments.map String.toList, bodies.map fun body => Text.trim body.toList⟩ ∧
        ∃ spans, Placed source.toList spans bodies ∧
          ∀ values : List String, values.length = bodies.length →
            (Template.ofSource source values).map Template.css =
              .ok (String.ofList (replaced source.toList 0 (spans.zip values))) := by
  refine ⟨⟨?_, ?_⟩, ?_⟩
  · rintro ⟨parts, hparts⟩
    obtain ⟨segments, bodies, h⟩ := exists_reading_of_split hparts
    exact ⟨segments, bodies, by rwa [String.ofList_toList] at h⟩
  · rintro ⟨segments, bodies, h⟩
    exact ⟨_, split_of_reading h⟩
  · intro segments bodies h
    refine ⟨fun _ _ => h.unique, split_of_reading h, spansFrom 0 segments bodies,
      placed_spansFrom h [], fun values hlength => ?_⟩
    have hreplaced := replaced_spansFrom h hlength []
    have hsegments : (segments.map String.toList).map String.ofList = segments := by simp
    rw [List.nil_append, List.length_nil] at hreplaced
    rw [Template.ofSource, split_of_reading h, hreplaced, String.ofList_toList]
    simp only [Except.map, hsegments, Template.css]

/-- A body with braces of its own, a dollar sign in front of a placeholder, and a brace behind. -/
theorem split_ok_iff_reading_nested :
    let source := "x$\x7b f\x7b\x7d \x7d$$\x7bb\x7d\x7b"
    split source.toList = .ok ⟨[['x'], ['$'], ['\x7b']], [['f', '\x7b', '\x7d'], ['b']]⟩ ∧
      ∃ spans, Placed source.toList spans [" f\x7b\x7d ", "b"] ∧
        (Template.ofSource source ["1", "2"]).map Template.css =
          .ok (String.ofList (replaced source.toList 0 (spans.zip ["1", "2"]))) := by
  intro source
  have hbalances (body : List Char) (h : closing? 0 (body ++ ['\x7d']) = some (body, [])) :
      Balances 0 body :=
    (balances_of_closing? h).2
  have hreading : Reading source ["x", "$", "\x7b"] [" f\x7b\x7d ", "b"] := by
    refine ⟨rfl, by decide, ?_, by decide⟩
    simp only [List.forall_mem_cons]
    exact ⟨⟨by decide, hbalances _ (by decide)⟩, ⟨by decide, hbalances _ (by decide)⟩, by simp⟩
  obtain ⟨-, hsplit, spans, hplaced, hcss⟩ := (split_ok_iff_reading source).2 _ _ hreading
  exact ⟨hsplit, spans, hplaced, hcss ["1", "2"] rfl⟩

end Placeholders

end ScopedCss
