/-
# Pages in chunks

A page may be cut into chunks anywhere, also into empty ones, as long as the first end of the head
is not cut in two: then the chunks leave an injector with the bytes with which the whole page leaves
it.  Other ends of the head may be cut, and beginnings of one may end a chunk.  Where the first end
of the head is cut in two the bytes differ, so the condition is exact
(`flatten_feed_eq_iff_keptWhole`).

The two sides differ in where the style element is put in.  Put in at two places it makes two
different pages, since it begins with other bytes than the end of the head (`spliced_ne_of_shift`).
-/

import ScopedCss.Proofs.Head.Splice

namespace ScopedCss

namespace Head

/-- The first place of a mark in a page lies within one of the chunks of the page. -/
def KeptWhole (mark : List UInt8) (chunks : List (List UInt8)) : Prop :=
  ∀ before after, FirstCut mark chunks.flatten before after →
    ∃ earlier p q later, chunks = earlier ++ (p ++ q) :: later ∧
      before = earlier.flatten ++ p ∧ mark <+: q

variable {mark before after p q : List UInt8} {earlier later chunks : List (List UInt8)}

theorem flatten_around (earlier : List (List UInt8)) (chunk : List UInt8)
    (later : List (List UInt8)) :
    (earlier ++ chunk :: later).flatten = earlier.flatten ++ chunk ++ later.flatten := by
  rw [List.flatten_append, List.flatten_cons, List.append_assoc]

/-- What is behind the first place in a page, where that place lies within one chunk. -/
theorem FirstCut.after_eq
    (h : FirstCut mark (earlier ++ (p ++ q) :: later).flatten (earlier.flatten ++ p) after) :
    after = q ++ later.flatten := by
  have heq := h.append_eq
  rw [flatten_around, ← List.append_assoc, List.append_assoc _ q] at heq
  exact (List.append_cancel_left heq).symm

/-- The first place in a page is the first place in the chunk that it lies within. -/
theorem FirstCut.of_flatten
    (h : FirstCut mark (earlier ++ (p ++ q) :: later).flatten (earlier.flatten ++ p) after)
    (hq : mark <+: q) : FirstCut mark (p ++ q) p q := by
  refine ⟨rfl, hq, fun p' q' hcut hbegins => ?_⟩
  have hpage : (earlier ++ (p ++ q) :: later).flatten =
      (earlier.flatten ++ p') ++ (q' ++ later.flatten) := by
    rw [flatten_around, hcut]
    simp only [List.append_assoc]
  have hle := h.first _ _ hpage (hbegins.trans (List.prefix_append q' _))
  simp only [List.length_append] at hle
  omega

/-- No chunk in front of the first place in a page holds the mark. -/
theorem FirstCut.not_isInfix_earlier (hmark : mark ≠ [])
    (h : FirstCut mark (earlier ++ (p ++ q) :: later).flatten (earlier.flatten ++ p) after) :
    ∀ c ∈ earlier, ¬ mark <:+: c := by
  rintro c hc ⟨s, t, rfl⟩
  obtain ⟨front, rest, rfl⟩ := List.append_of_mem hc
  have hpage : ((front ++ (s ++ mark ++ t) :: rest) ++ (p ++ q) :: later).flatten =
      (front.flatten ++ s) ++ (mark ++ (t ++ rest.flatten ++ (p ++ q) ++ later.flatten)) := by
    rw [flatten_around, flatten_around]
    simp only [List.append_assoc]
  have hle := h.first _ _ hpage (List.prefix_append mark _)
  have hpos := List.length_pos_iff.2 hmark
  simp only [flatten_around, List.length_append] at hle
  omega

theorem marker_ne_nil : marker ≠ [] := by decide

end Head

namespace HeadInjector

open Head

variable {injector : HeadInjector} {before after p q : List UInt8}
  {earlier later chunks : List (List UInt8)}

/-- Chunks pass as a stream without failures does. -/
theorem run_map_ok {ε : Type} (injector : HeadInjector) (chunks : List (List UInt8)) :
    injector.run (chunks.map (Except.ok : List UInt8 → Except ε (List UInt8))) =
      ((injector.feed chunks).1, (injector.feed chunks).2.map Except.ok) := by
  induction chunks generalizing injector with
  | nil => rfl
  | cons chunk chunks ih => simp only [List.map_cons, run, feed, transformItem, ih]

theorem feed_eq_of_run {left : HeadInjector} {out : List (List UInt8)}
    (h : injector.run (chunks.map (Except.ok : List UInt8 → Except Empty (List UInt8))) =
      (left, out.map Except.ok)) : injector.feed chunks = (left, out) := by
  rw [run_map_ok, Prod.mk.injEq, List.map_inj_right fun _ _ => Except.ok.inj] at h
  exact Prod.ext h.1 h.2

theorem unmarked_map_ok {ε : Type} (h : ∀ c ∈ chunks, ¬ marker <:+: c) :
    Unmarked (chunks.map (Except.ok : List UInt8 → Except ε (List UInt8))) := by
  intro c hc
  obtain ⟨c', hc', heq⟩ := List.mem_map.1 hc
  cases heq
  exact h c hc'

theorem feed_of_unmarked (injector : HeadInjector) (h : ∀ c ∈ chunks, ¬ marker <:+: c) :
    injector.feed chunks = (injector, chunks) :=
  feed_eq_of_run (run_of_unmarked injector (unmarked_map_ok h))

/-- The first chunk with the end of the head gets the style element. -/
theorem feed_of_firstCut (hdone : injector.done = false)
    (hearlier : ∀ c ∈ earlier, ¬ marker <:+: c) (hcut : FirstCut marker (p ++ q) p q)
    (later : List (List UInt8)) :
    injector.feed (earlier ++ (p ++ q) :: later) =
      (injector.finished, earlier ++ injector.spliced p q :: later) := by
  apply feed_eq_of_run
  simp only [List.map_append, List.map_cons]
  exact run_of_firstCut hdone (unmarked_map_ok hearlier) hcut _

/-- Bytes around a splice in one chunk are bytes around a splice in the page. -/
theorem flatten_spliced (injector : HeadInjector) (earlier : List (List UInt8)) (p q : List UInt8)
    (later : List (List UInt8)) :
    (earlier ++ injector.spliced p q :: later).flatten =
      injector.spliced (earlier.flatten ++ p) (q ++ later.flatten) := by
  simp only [flatten_around, spliced, List.append_assoc]

/-- Some chunk is the first one with the end of the head, unless none has it. -/
theorem exists_first_marked (h : ¬ ∀ c ∈ chunks, ¬ marker <:+: c) :
    ∃ earlier p q later, chunks = earlier ++ (p ++ q) :: later ∧
      (∀ c ∈ earlier, ¬ marker <:+: c) ∧ FirstCut marker (p ++ q) p q := by
  let items := chunks.map (Except.ok : List UInt8 → Except Empty (List UInt8))
  have hmarked : ¬ Unmarked items := fun hitems =>
    h fun c hc => hitems c (List.mem_map_of_mem hc)
  obtain ⟨i, chunk, p, q, hfirst⟩ := exists_firstMarked hmarked
  obtain rfl := hfirst.cut.append_eq
  have hchunk : chunks[i]? = some (p ++ q) := by simpa [items] using hfirst.item
  obtain ⟨hi, hget⟩ := List.getElem?_eq_some_iff.1 hchunk
  refine ⟨chunks.take i, p, q, chunks.drop (i + 1), ?_, fun c hc => ?_, hfirst.cut⟩
  · rw [← hget, List.getElem_cons_drop, List.take_append_drop]
  · refine hfirst.earlier c ?_
    rw [← List.map_take]
    exact List.mem_map_of_mem hc

theorem exists_bytes_styleTag (injector : HeadInjector) :
    ∃ rest, Text.bytes injector.styleTag = 0x3c :: 0x73 :: rest := by
  have hopening : ∃ rest, Text.bytes "<style id=\"".toList = 0x3c :: 0x73 :: rest := ⟨_, by cbv⟩
  obtain ⟨rest, hrest⟩ := hopening
  unfold styleTag
  simp only [Text.bytes_append, hrest, List.cons_append]
  exact ⟨_, rfl⟩

/-- Put in behind the place where the end of the head begins, the style element makes another page:
its second byte is not that of the end of the head. -/
theorem spliced_ne_of_shift (injector : HeadInjector) {u : List UInt8} (hu : u ≠ [])
    (hbegins : marker <+: u ++ after) :
    injector.spliced (before ++ u) after ≠ injector.spliced before (u ++ after) := by
  obtain ⟨tag, htag⟩ := injector.exists_bytes_styleTag
  obtain ⟨end_, hend⟩ := hbegins
  have hmarker : marker = [0x3c, 0x2f, 0x68, 0x65, 0x61, 0x64, 0x3e] := by cbv
  intro heq
  simp only [spliced, htag, List.append_assoc, List.append_cancel_left_eq, List.cons_append] at heq
  rw [hmarker] at hend
  cases u with
  | nil => exact hu rfl
  | cons b rest =>
      cases rest with
      | nil => simp at heq
      | cons c rest =>
          -- The second byte would be both that of the mark and that of the style element.
          simp only [List.cons_append, List.cons.injEq] at heq hend
          exact absurd (heq.2.1.symm.trans hend.2.1.symm) (by decide)

/-- There is one place in a page at which the style element makes the page with a splice at the
first end of the head. -/
theorem eq_before_of_spliced_eq {page front rest : List UInt8}
    (h : FirstCut marker page before after) (hpage : page = front ++ rest)
    (hbegins : marker <+: rest)
    (heq : injector.spliced front rest = injector.spliced before after) : front = before := by
  have hcut : before ++ after = front ++ rest := h.append_eq.symm.trans hpage
  obtain ⟨u, rfl⟩ := List.prefix_of_prefix_length_le (List.prefix_append before after)
    (hcut ▸ List.prefix_append front rest) (h.first front rest hpage hbegins)
  rw [List.append_assoc, List.append_cancel_left_eq] at hcut
  subst hcut
  by_cases hu : u = []
  · rw [hu, List.append_nil]
  · exact absurd heq (injector.spliced_ne_of_shift hu h.begins)

/-- Chunks that keep the first end of the head whole leave with the bytes of the page. -/
theorem flatten_feed_of_keptWhole (hdone : injector.done = false)
    (hwhole : KeptWhole marker chunks) :
    (injector.feed chunks).2.flatten = (injector.transform chunks.flatten).2 := by
  by_cases hpage : marker <:+: chunks.flatten
  · obtain ⟨before, after, hcut⟩ := exists_cutBefore? hpage
    have hfirst := firstCut_of_cutBefore? hcut
    obtain ⟨earlier, p, q, later, rfl, rfl, hq⟩ := hwhole before after hfirst
    have hearlier := hfirst.not_isInfix_earlier marker_ne_nil
    rw [feed_of_firstCut hdone hearlier (hfirst.of_flatten hq), flatten_spliced,
      transform_of_firstCut hdone hfirst, hfirst.after_eq]
  · have hchunks : ∀ c ∈ chunks, ¬ marker <:+: c := fun c hc hmarker =>
      hpage (hmarker.trans (List.infix_of_mem_flatten hc))
    rw [feed_of_unmarked injector hchunks, transform_of_unmarked hpage]

/-- Chunks that leave with the bytes of the page keep the first end of the head whole. -/
theorem keptWhole_of_flatten_feed (hdone : injector.done = false)
    (hbytes : (injector.feed chunks).2.flatten = (injector.transform chunks.flatten).2) :
    KeptWhole marker chunks := by
  intro before after hfirst
  rw [transform_of_firstCut hdone hfirst] at hbytes
  by_cases hchunks : ∀ c ∈ chunks, ¬ marker <:+: c
  · rw [feed_of_unmarked injector hchunks] at hbytes
    have hpage : injector.spliced before after = before ++ after :=
      hbytes.symm.trans hfirst.append_eq
    exact absurd hpage (injector.spliced_ne before after)
  · obtain ⟨earlier, p, q, later, rfl, hearlier, hcut⟩ := exists_first_marked hchunks
    rw [feed_of_firstCut hdone hearlier hcut, flatten_spliced] at hbytes
    have hpage : (earlier ++ (p ++ q) :: later).flatten =
        (earlier.flatten ++ p) ++ (q ++ later.flatten) := by
      simp only [flatten_around, List.append_assoc]
    have hbegins := hcut.begins.trans (List.prefix_append q later.flatten)
    exact ⟨earlier, p, q, later, rfl,
      (eq_before_of_spliced_eq hfirst hpage hbegins hbytes).symm, hcut.begins⟩

/-- Chunks leave with the bytes of the whole page exactly if the first end of the head lies within
one of them, or there is none.  So two such ways to cut a page serve the same bytes. -/
theorem flatten_feed_eq_iff_keptWhole (css : String) (nonce : Option String)
    (chunks : List (List UInt8)) :
    let injector := new css nonce
    ((injector.feed chunks).2.flatten = (injector.transform chunks.flatten).2 ↔
      KeptWhole marker chunks) ∧
    ∀ others : List (List UInt8), others.flatten = chunks.flatten →
      KeptWhole marker chunks → KeptWhole marker others →
      (injector.feed others).2.flatten = (injector.feed chunks).2.flatten := by
  intro injector
  have hdone : injector.done = false := rfl
  refine ⟨⟨keptWhole_of_flatten_feed hdone, flatten_feed_of_keptWhole hdone⟩,
    fun others hpage hchunks hothers => ?_⟩
  rw [flatten_feed_of_keptWhole hdone hothers, flatten_feed_of_keptWhole hdone hchunks, hpage]

/-- A page with two ends of the head: a beginning of one ends the first chunk, the second one is
cut in two, and one chunk is empty.  The page in single bytes does not keep the first one whole. -/
theorem flatten_feed_eq_iff_keptWhole_straddled :
    let injector := new "a" none
    let page := 0x3c :: (marker ++ marker)
    let chunks := [[0x3c], [], marker ++ [0x3c, 0x2f], marker.drop 2]
    let bytes := page.map fun b => [b]
    chunks.flatten = page ∧ KeptWhole marker chunks ∧ KeptWhole marker [page] ∧
      (injector.feed chunks).2.flatten = (injector.transform page).2 ∧
      (injector.feed [page]).2.flatten = (injector.feed chunks).2.flatten ∧
      bytes.flatten = page ∧ ¬ KeptWhole marker bytes := by
  intro injector page chunks bytes
  have hpage : chunks.flatten = page := by decide +kernel
  have hbytes : bytes.flatten = page := by decide +kernel
  have hfirst : FirstCut marker page [0x3c] (marker ++ marker) :=
    firstCut_of_cutBefore? (by decide +kernel)
  have hchunks : KeptWhole marker chunks := by
    intro before after hcut
    rw [hpage] at hcut
    obtain ⟨rfl, -⟩ := hcut.unique hfirst
    exact ⟨[[0x3c], []], [], marker ++ [0x3c, 0x2f], [marker.drop 2], rfl, rfl,
      List.prefix_append marker _⟩
  have hsingle : KeptWhole marker [page] := by
    intro before after hcut
    rw [List.flatten_singleton] at hcut
    obtain ⟨rfl, -⟩ := hcut.unique hfirst
    exact ⟨[], [0x3c], marker ++ marker, [], rfl, rfl, List.prefix_append marker _⟩
  obtain ⟨hiff, hsame⟩ := flatten_feed_eq_iff_keptWhole "a" none chunks
  obtain ⟨hiff', -⟩ := flatten_feed_eq_iff_keptWhole "a" none bytes
  refine ⟨hpage, hchunks, hsingle, hpage ▸ hiff.2 hchunks,
    hsame [page] (by rw [List.flatten_singleton, hpage]) hchunks hsingle, hbytes, ?_⟩
  rw [← hiff', hbytes]
  decide +kernel

end HeadInjector

end ScopedCss
