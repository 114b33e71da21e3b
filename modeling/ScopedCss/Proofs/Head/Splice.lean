/-
# One splice in a stream

A stream of chunks and failures passes an injector.  The first chunk that holds the end of the head
is cut where that end begins first, and the style element goes into the cut; every other item
leaves as it came, whatever its bytes (`run_splices_once`).  Nothing is asked of the chunks: they
need not be text, and neither the CSS nor the nonce is looked at for an end of the head.

`Head.FirstCut` states a cut at the first place without the search that finds it.
-/

import ScopedCss.Head

namespace ScopedCss

namespace Head

/-- Bytes are cut in two where a mark begins for the first time. -/
structure FirstCut (mark bytes before after : List UInt8) : Prop where
  append_eq : bytes = before ++ after
  begins : mark <+: after
  first : ∀ p q, bytes = p ++ q → mark <+: q → before.length ≤ p.length

variable {mark bytes before after : List UInt8}

theorem FirstCut.isInfix (h : FirstCut mark bytes before after) : mark <:+: bytes := by
  rw [h.append_eq]
  exact h.begins.isInfix.trans (List.suffix_append before after).isInfix

/-- There is only one first place. -/
theorem FirstCut.unique {before' after' : List UInt8} (h : FirstCut mark bytes before after)
    (h' : FirstCut mark bytes before' after') : before = before' ∧ after = after' := by
  have hlength : before.length = before'.length := Nat.le_antisymm
    (h.first before' after' h'.append_eq h'.begins) (h'.first before after h.append_eq h.begins)
  exact List.append_inj (h.append_eq.symm.trans h'.append_eq) hlength

theorem FirstCut.start (h : mark <+: bytes) : FirstCut mark bytes [] bytes :=
  ⟨rfl, h, fun _ _ _ _ => Nat.zero_le _⟩

/-- Where a mark does not begin at the first byte, it begins first where it does behind that
byte. -/
theorem FirstCut.cons {b : UInt8} (hb : ¬ mark <+: b :: bytes)
    (h : FirstCut mark bytes before after) : FirstCut mark (b :: bytes) (b :: before) after := by
  refine ⟨by rw [h.append_eq, List.cons_append], h.begins, fun p q hcut hq => ?_⟩
  cases p with
  | nil => exact absurd (hcut ▸ hq) hb
  | cons c p => exact Nat.succ_le_succ (h.first p q (List.cons.inj hcut).2 hq)

theorem firstCut_of_cutBefore? (h : cutBefore? mark bytes = some (before, after)) :
    FirstCut mark bytes before after := by
  induction bytes generalizing before with
  | nil =>
      simp only [cutBefore?, Option.ite_none_right_eq_some, Option.some.injEq, Prod.mk.injEq] at h
      obtain ⟨rfl, rfl, rfl⟩ := h
      exact .start (List.prefix_refl [])
  | cons b bytes ih =>
      rw [cutBefore?] at h
      split at h
      · next hbegins =>
        cases h
        exact .start (List.isPrefixOf_iff_prefix.1 hbegins)
      · next hbegins =>
        obtain ⟨⟨p, q⟩, hcut, heq⟩ := Option.map_eq_some_iff.1 h
        cases heq
        exact .cons (mt List.isPrefixOf_iff_prefix.2 hbegins) (ih hcut)

theorem cutBefore?_eq_none_iff : cutBefore? mark bytes = none ↔ ¬ mark <:+: bytes := by
  induction bytes with
  | nil => simp [cutBefore?]
  | cons b bytes ih =>
      rw [cutBefore?, List.infix_cons_iff]
      split
      · next hbegins => simp [List.isPrefixOf_iff_prefix.1 hbegins]
      · next hbegins =>
        rw [Option.map_eq_none_iff, ih, or_iff_right (mt List.isPrefixOf_iff_prefix.2 hbegins)]

theorem exists_cutBefore? (h : mark <:+: bytes) :
    ∃ before after, cutBefore? mark bytes = some (before, after) := by
  obtain ⟨⟨before, after⟩, hcut⟩ := Option.ne_none_iff_exists'.1 (mt cutBefore?_eq_none_iff.1
    (not_not_intro h))
  exact ⟨before, after, hcut⟩

/-- No chunk of a stream holds the end of the head. -/
def Unmarked {ε : Type} (items : List (Except ε (List UInt8))) : Prop :=
  ∀ c, Except.ok c ∈ items → ¬ marker <:+: c

/-- The item at `i` is the first chunk of a stream that holds the end of the head, and it is cut
where that end begins first. -/
structure FirstMarked {ε : Type} (items : List (Except ε (List UInt8))) (i : Nat)
    (chunk before after : List UInt8) : Prop where
  item : items[i]? = some (.ok chunk)
  cut : FirstCut marker chunk before after
  earlier : Unmarked (items.take i)

section Streams

variable {ε : Type} {items : List (Except ε (List UInt8))} {item : Except ε (List UInt8)}

theorem Unmarked.take (h : Unmarked items) (n : Nat) : Unmarked (items.take n) :=
  fun c hc => h c (List.mem_of_mem_take hc)

theorem FirstMarked.start {chunk : List UInt8} (h : FirstCut marker chunk before after)
    (items : List (Except ε (List UInt8))) :
    FirstMarked (.ok chunk :: items) 0 chunk before after :=
  ⟨rfl, h, fun _ hc => nomatch hc⟩

theorem FirstMarked.cons {i : Nat} {chunk : List UInt8}
    (hitem : ∀ c, item = .ok c → ¬ marker <:+: c) (h : FirstMarked items i chunk before after) :
    FirstMarked (item :: items) (i + 1) chunk before after := by
  refine ⟨h.item, h.cut, fun c hc => ?_⟩
  rcases List.mem_cons.1 hc with heq | hc
  · exact hitem c heq.symm
  · exact h.earlier c hc

/-- A stream in which the end of the head is found has a first chunk with it. -/
theorem exists_firstMarked (h : ¬ Unmarked items) :
    ∃ i chunk before after, FirstMarked items i chunk before after := by
  induction items with
  | nil => exact absurd (fun _ hc => nomatch hc) h
  | cons item items ih =>
      by_cases hitem : ∃ c, item = .ok c ∧ marker <:+: c
      · obtain ⟨c, rfl, hc⟩ := hitem
        obtain ⟨before, after, hcut⟩ := exists_cutBefore? hc
        exact ⟨0, c, before, after, .start (firstCut_of_cutBefore? hcut) items⟩
      · have hfree : ∀ c, item = .ok c → ¬ marker <:+: c :=
          fun c heq hc => hitem ⟨c, heq, hc⟩
        have hrest : ¬ Unmarked items := fun hrest => h fun c hc =>
          (List.mem_cons.1 hc).elim (fun heq => hfree c heq.symm) (hrest c)
        obtain ⟨i, chunk, before, after, hfirst⟩ := ih hrest
        exact ⟨i + 1, chunk, before, after, hfirst.cons hfree⟩

theorem FirstMarked.drop_eq {i : Nat} {chunk : List UInt8}
    (h : FirstMarked items i chunk before after) :
    items.drop i = .ok chunk :: items.drop (i + 1) := by
  obtain ⟨hi, hitem⟩ := List.getElem?_eq_some_iff.1 h.item
  rw [List.drop_eq_getElem_cons hi, hitem]

theorem FirstMarked.items_eq {i : Nat} {chunk : List UInt8}
    (h : FirstMarked items i chunk before after) :
    items = items.take i ++ .ok chunk :: items.drop (i + 1) := by
  rw [← h.drop_eq, List.take_append_drop]

theorem FirstMarked.set_eq {i : Nat} {chunk : List UInt8}
    (h : FirstMarked items i chunk before after) (changed : Except ε (List UInt8)) :
    items.set i changed = items.take i ++ changed :: items.drop (i + 1) := by
  obtain ⟨hi, -⟩ := List.getElem?_eq_some_iff.1 h.item
  rw [List.set_eq_take_append_cons_drop, if_pos hi]

end Streams

end Head

namespace HeadInjector

open Head

variable {ε : Type} {injector : HeadInjector} {items : List (Except ε (List UInt8))}
  {chunk before after : List UInt8}

/-- A chunk with the style element put into a cut. -/
def spliced (injector : HeadInjector) (before after : List UInt8) : List UInt8 :=
  before ++ Text.bytes injector.styleTag ++ after

/-- The same injector after its work. -/
def finished (injector : HeadInjector) : HeadInjector :=
  { injector with done := true }

theorem styleTag_ne_nil (injector : HeadInjector) : injector.styleTag ≠ [] :=
  List.append_ne_nil_of_right_ne_nil _ (mt String.toList_eq_nil_iff.1 (by decide))

theorem bytes_styleTag_ne_nil (injector : HeadInjector) : Text.bytes injector.styleTag ≠ [] := by
  obtain ⟨c, text, htext⟩ := List.exists_cons_of_ne_nil injector.styleTag_ne_nil
  rw [htext, Text.bytes, List.flatMap_cons]
  exact List.append_ne_nil_of_left_ne_nil String.utf8EncodeChar_ne_nil _

/-- A chunk is changed by a splice. -/
theorem spliced_ne (injector : HeadInjector) (before after : List UInt8) :
    injector.spliced before after ≠ before ++ after := by
  intro h
  have hlength := congrArg List.length h
  have hpos := List.length_pos_iff.2 injector.bytes_styleTag_ne_nil
  simp only [spliced, List.length_append] at hlength
  omega

theorem transform_of_done (h : injector.done = true) (chunk : List UInt8) :
    injector.transform chunk = (injector, chunk) := by
  rw [transform, if_pos h]

theorem transform_of_unmarked (h : ¬ marker <:+: chunk) :
    injector.transform chunk = (injector, chunk) := by
  rw [transform, cutBefore?_eq_none_iff.2 h]
  split <;> rfl

theorem transform_of_firstCut (hdone : injector.done = false)
    (h : FirstCut marker chunk before after) :
    injector.transform chunk = (injector.finished, injector.spliced before after) := by
  obtain ⟨before', after', hcut⟩ := exists_cutBefore? h.isInfix
  obtain ⟨rfl, rfl⟩ := (firstCut_of_cutBefore? hcut).unique h
  simp only [transform, hdone, Bool.false_eq_true, if_false, hcut, finished, spliced]

theorem run_append (injector : HeadInjector) (first second : List (Except ε (List UInt8))) :
    injector.run (first ++ second) =
      (((injector.run first).1.run second).1,
        (injector.run first).2 ++ ((injector.run first).1.run second).2) := by
  induction first generalizing injector with
  | nil => rfl
  | cons item first ih => simp only [List.cons_append, run, ih]

/-- Items pass unchanged if each of them does. -/
theorem run_of_passing
    (h : ∀ c, .ok c ∈ items → injector.transform c = (injector, c)) :
    injector.run items = (injector, items) := by
  induction items with
  | nil => rfl
  | cons item items ih =>
      have hitem : injector.transformItem item = (injector, item) := by
        cases item with
        | error e => rfl
        | ok c => rw [transformItem, h c List.mem_cons_self]
      have hrest := ih fun c hc => h c (List.mem_cons_of_mem item hc)
      simp only [run, hitem, hrest]

theorem run_of_unmarked (injector : HeadInjector) (h : Unmarked items) :
    injector.run items = (injector, items) :=
  run_of_passing fun c hc => transform_of_unmarked (h c hc)

theorem run_finished (injector : HeadInjector) (items : List (Except ε (List UInt8))) :
    injector.finished.run items = (injector.finished, items) :=
  run_of_passing fun c _ => transform_of_done rfl c

/-- The first chunk with the end of the head gets the style element; what follows it passes. -/
theorem run_of_firstCut (hdone : injector.done = false) {earlier : List (Except ε (List UInt8))}
    (hearlier : Unmarked earlier) (hcut : FirstCut marker chunk before after)
    (later : List (Except ε (List UInt8))) :
    injector.run (earlier ++ .ok chunk :: later) =
      (injector.finished, earlier ++ .ok (injector.spliced before after) :: later) := by
  rw [run_append, run_of_unmarked injector hearlier]
  simp only [run, transformItem, transform_of_firstCut hdone hcut, run_finished]

/-- An injector is done behind the first chunk with the end of the head, and not before. -/
theorem done_run_take (hdone : injector.done = false) {i : Nat}
    (h : FirstMarked items i chunk before after) (n : Nat) :
    (injector.run (items.take n)).1.done = decide (i < n) := by
  obtain ⟨hi, -⟩ := List.getElem?_eq_some_iff.1 h.item
  by_cases hn : i < n
  · obtain ⟨k, rfl⟩ := Nat.exists_eq_add_of_lt hn
    have htake : items.take (i + k + 1) =
        items.take i ++ .ok chunk :: (items.drop (i + 1)).take k := by
      rw [Nat.add_assoc, List.take_add, h.drop_eq, List.take_succ_cons]
    rw [htake, run_of_firstCut hdone h.earlier h.cut, decide_eq_true hn]
    rfl
  · have hle : n ≤ i := Nat.le_of_not_lt hn
    have htake : items.take n = (items.take i).take n := by
      rw [List.take_take, Nat.min_eq_left hle]
    rw [htake, run_of_unmarked injector (h.earlier.take n), decide_eq_false hn, hdone]

/-- A stream leaves with as many items as it has, its failures unchanged.  Either no chunk holds the
end of the head, and nothing changes; or exactly the first chunk that does is changed: the style
element is put in where the end of the head begins first in it.  The injector is done from that item
on, and not before. -/
theorem run_splices_once (css : String) (nonce : Option String)
    (items : List (Except ε (List UInt8))) :
    let injector := new css nonce
    let out := (injector.run items).2
    let doneAfter (n : Nat) := (injector.run (items.take n)).1.done
    out.length = items.length ∧
    (∀ (i : Nat) (e : ε), items[i]? = some (.error e) → out[i]? = some (.error e)) ∧
    (Unmarked items → out = items ∧ ∀ n, doneAfter n = false) ∧
    (¬ Unmarked items → ∃ i chunk before after, FirstMarked items i chunk before after ∧
      out = items.set i (.ok (before ++ Text.bytes injector.styleTag ++ after)) ∧
      before ++ Text.bytes injector.styleTag ++ after ≠ chunk ∧
      ∀ n, doneAfter n = decide (i < n)) := by
  intro injector out doneAfter
  have hpass (h : Unmarked items) : out = items := congrArg Prod.snd (run_of_unmarked injector h)
  have hsplice {i : Nat} {chunk before after : List UInt8}
      (h : FirstMarked items i chunk before after) :
      out = items.set i (.ok (injector.spliced before after)) := by
    have hdone : injector.done = false := rfl
    have hrun := run_of_firstCut hdone h.earlier h.cut (items.drop (i + 1))
    rw [← h.items_eq, ← h.set_eq] at hrun
    exact congrArg Prod.snd hrun
  refine ⟨?_, fun j e he => ?_, fun h => ⟨hpass h, fun n => ?_⟩, fun h => ?_⟩
  · by_cases h : Unmarked items
    · rw [hpass h]
    · obtain ⟨i, chunk, before, after, hfirst⟩ := exists_firstMarked h
      rw [hsplice hfirst, List.length_set]
  · by_cases h : Unmarked items
    · rw [hpass h, he]
    · obtain ⟨i, chunk, before, after, hfirst⟩ := exists_firstMarked h
      have hne : i ≠ j := by
        rintro rfl
        rw [hfirst.item] at he
        cases he
      rw [hsplice hfirst, List.getElem?_set_ne hne, he]
  · exact congrArg (fun passed => passed.1.done) (run_of_unmarked injector (h.take n))
  · obtain ⟨i, chunk, before, after, hfirst⟩ := exists_firstMarked h
    refine ⟨i, chunk, before, after, hfirst, hsplice hfirst, ?_, done_run_take rfl hfirst⟩
    rw [hfirst.cut.append_eq]
    exact injector.spliced_ne before after

/-- A failure, bytes that are no text, and a chunk in which the end of the head stands twice behind
another byte; the CSS holds the end of the head as well. -/
theorem run_splices_once_twice :
    let injector := new "</head>" (some "n")
    let head := 0x3c :: (marker ++ marker)
    let items : List (Except String (List UInt8)) :=
      [.error "lost", .ok [0xff, 0x3c], .ok head, .ok marker]
    let out := (injector.run items).2
    ¬ Unmarked items ∧ out.length = 4 ∧ out[0]? = some (.error "lost") ∧
      out = items.set 2 (.ok (0x3c :: (Text.bytes injector.styleTag ++ (marker ++ marker)))) ∧
      (injector.run (items.take 2)).1.done = false ∧
      (injector.run (items.take 3)).1.done = true := by
  intro injector head items out
  have hmarked : ¬ Unmarked items := fun h => h marker (by simp [items]) (List.infix_refl marker)
  have hcut : FirstCut marker head [0x3c] (marker ++ marker) :=
    firstCut_of_cutBefore? (by decide +kernel)
  have hbefore : (injector.run (items.take 2)).1.done = false := by decide +kernel
  have hbehind : (injector.run (items.take 3)).1.done = true := by decide +kernel
  obtain ⟨hlength, hfailures, -, hsplice⟩ := run_splices_once "</head>" (some "n") items
  obtain ⟨i, chunk, before, after, hfirst, hout, -, hdone⟩ := hsplice hmarked
  have hi : i = 2 := by
    have hge := of_decide_eq_false ((hdone 2).symm.trans hbefore)
    have hle := of_decide_eq_true ((hdone 3).symm.trans hbehind)
    omega
  subst hi
  cases hfirst.item
  obtain ⟨rfl, rfl⟩ := hfirst.cut.unique hcut
  exact ⟨hmarked, hlength, hfailures 0 "lost" rfl, hout, hbefore, hbehind⟩

end HeadInjector

end ScopedCss
