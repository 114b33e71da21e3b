/-
# Texts that close what they open

`Closes` reads a text character by character: it matches every bracket, and lets a brace stand only
where no other bracket is open.  The machine that cuts a text into rules reads lexemes instead, and
it may lose sight of brackets: a url takes the brackets in it along, and if it ends early then
closing brackets are left over.  So its stack is not the stack of the text but a part of it, with
the same braces (`Tracks`).  That is enough to find the block of a rule whose selector and body are
tame and close what they open (`cut_braceRule`).
-/

import ScopedCss.Proofs.Css.Tame
import ScopedCss.Proofs.Css.WellFormed

namespace ScopedCss.Css

/-- Reading a text closes the given brackets, innermost first, then so many braces, and leaves
nothing open. -/
inductive Closes : List Bracket → Nat → List Char → Prop where
  | nil : Closes [] 0 []
  | free {inner : List Bracket} {depth : Nat} {c : Char} {cs : List Char}
      (hfree : isBracket c = false) (hrest : Closes inner depth cs) : Closes inner depth (c :: cs)
  | opening {inner : List Bracket} {depth : Nat} {b : Bracket} {cs : List Char}
      (hcurly : b ≠ .curly) (hrest : Closes (b :: inner) depth cs) :
      Closes inner depth (b.opener :: cs)
  | closing {inner : List Bracket} {depth : Nat} {b : Bracket} {cs : List Char}
      (hcurly : b ≠ .curly) (hrest : Closes inner depth cs) :
      Closes (b :: inner) depth (b.closer :: cs)
  | openBrace {depth : Nat} {cs : List Char} (hrest : Closes [] (depth + 1) cs) :
      Closes [] depth (Bracket.curly.opener :: cs)
  | closeBrace {depth : Nat} {cs : List Char} (hrest : Closes [] depth cs) :
      Closes [] (depth + 1) (Bracket.curly.closer :: cs)

theorem isBracket_opener (b : Bracket) : isBracket b.opener = true := by
  cases b <;> rfl

theorem isBracket_closer (b : Bracket) : isBracket b.closer = true := by
  cases b <;> rfl

theorem opener_ne_closer (b b' : Bracket) : b.opener ≠ b'.closer := by
  cases b <;> cases b' <;> decide

theorem opener_inj {b b' : Bracket} (h : b.opener = b'.opener) : b = b' := by
  cases b <;> cases b' <;> first | rfl | cases h

theorem closer_inj {b b' : Bracket} (h : b.closer = b'.closer) : b = b' := by
  cases b <;> cases b' <;> first | rfl | cases h

section Closes

variable {inner : List Bracket} {depth : Nat} {b : Bracket} {cs : List Char}

theorem Closes.of_free {u : List Char} (hu : Free u) (h : Closes inner depth (u ++ cs)) :
    Closes inner depth cs := by
  induction u with
  | nil => exact h
  | cons c u ih =>
      have hc : isBracket c = false := hu c List.mem_cons_self
      apply ih (fun d hd => hu d (List.mem_cons_of_mem c hd))
      generalize htext : c :: u ++ cs = text at h
      cases h with
      | nil => cases htext
      | free hfree hrest =>
          cases htext
          exact hrest
      | opening hcurly hrest =>
          cases htext
          simp [isBracket_opener] at hc
      | closing hcurly hrest =>
          cases htext
          simp [isBracket_closer] at hc
      | openBrace hrest =>
          cases htext
          cases hc
      | closeBrace hrest =>
          cases htext
          cases hc

/-- Nothing but a brace opens a brace, and it stands outside of the other brackets. -/
theorem Closes.of_opener (h : Closes inner depth (b.opener :: cs)) :
    b ≠ .curly ∧ Closes (b :: inner) depth cs ∨
      b = .curly ∧ inner = [] ∧ Closes [] (depth + 1) cs := by
  generalize htext : b.opener :: cs = text at h
  cases h with
  | nil => cases htext
  | free hfree hrest =>
      obtain ⟨rfl, rfl⟩ := List.cons.inj htext
      simp [isBracket_opener] at hfree
  | opening hcurly hrest =>
      obtain ⟨hb, rfl⟩ := List.cons.inj htext
      cases opener_inj hb
      exact Or.inl ⟨hcurly, hrest⟩
  | closing hcurly hrest => exact absurd (List.cons.inj htext).1 (opener_ne_closer _ _)
  | openBrace hrest =>
      obtain ⟨hb, rfl⟩ := List.cons.inj htext
      cases opener_inj hb
      exact Or.inr ⟨rfl, rfl, hrest⟩
  | closeBrace hrest => exact absurd (List.cons.inj htext).1 (opener_ne_closer _ _)

/-- A closing bracket closes the innermost bracket, a brace the innermost brace. -/
theorem Closes.of_closer (h : Closes inner depth (b.closer :: cs)) :
    (b ≠ .curly ∧ ∃ outer, inner = b :: outer ∧ Closes outer depth cs) ∨
      b = .curly ∧ inner = [] ∧ ∃ rest, depth = rest + 1 ∧ Closes [] rest cs := by
  generalize htext : b.closer :: cs = text at h
  cases h with
  | nil => cases htext
  | free hfree hrest =>
      obtain ⟨rfl, rfl⟩ := List.cons.inj htext
      simp [isBracket_closer] at hfree
  | opening hcurly hrest => exact absurd (List.cons.inj htext).1.symm (opener_ne_closer _ _)
  | closing hcurly hrest =>
      obtain ⟨hb, rfl⟩ := List.cons.inj htext
      cases closer_inj hb
      exact Or.inl ⟨hcurly, _, rfl, hrest⟩
  | openBrace hrest => exact absurd (List.cons.inj htext).1.symm (opener_ne_closer _ _)
  | closeBrace hrest =>
      obtain ⟨hb, rfl⟩ := List.cons.inj htext
      cases closer_inj hb
      exact Or.inr ⟨rfl, rfl, _, rfl, hrest⟩

/-- An open parenthesis is followed by a closing one before any brace.  The first that follows need
not be the one that matches, and then there are more brackets open after it than before. -/
theorem Closes.exists_round {outer : List Bracket} (h : Closes inner depth cs)
    (hround : ∃ above, inner = above ++ .round :: outer) :
    ∃ u rest above, cs = u ++ ')' :: rest ∧ ')' ∉ u ∧ Closes (above ++ outer) depth rest := by
  have step {c : Char} {cs : List Char} (hc : c ≠ ')')
      (ih : ∃ u rest above, cs = u ++ ')' :: rest ∧ ')' ∉ u ∧
        Closes (above ++ outer) depth rest) :
      ∃ u rest above, c :: cs = u ++ ')' :: rest ∧ ')' ∉ u ∧
        Closes (above ++ outer) depth rest := by
    obtain ⟨u, rest, above, rfl, hu, hrest⟩ := ih
    exact ⟨c :: u, rest, above, rfl, mt List.mem_cons.1 (not_or.2 ⟨hc.symm, hu⟩), hrest⟩
  obtain ⟨above, hinner⟩ := hround
  induction h generalizing above with
  | nil => simp at hinner
  | free hfree hrest ih =>
      refine step ?_ (ih step above hinner)
      rintro rfl
      cases hfree
  | @opening inner depth b cs hcurly hrest ih =>
      refine step (opener_ne_closer b .round) (ih step (b :: above) ?_)
      rw [hinner, List.cons_append]
  | @closing inner depth b cs hcurly hrest ih =>
      cases above with
      | nil =>
          obtain ⟨rfl, rfl⟩ := List.cons.inj hinner
          exact ⟨[], cs, [], rfl, List.not_mem_nil, hrest⟩
      | cons b' above =>
          obtain ⟨rfl, rfl⟩ := List.cons.inj hinner
          by_cases hround : b = .round
          · subst hround
            exact ⟨[], cs, above ++ [.round], rfl, List.not_mem_nil, by simpa using hrest⟩
          · exact step (fun hc => hround (closer_inj (b := b) hc)) (ih step above rfl)
  | openBrace hrest ih => simp at hinner
  | closeBrace hrest ih => simp at hinner

end Closes

/-- The machine holds a part of the brackets that a text is still to close, with all of its braces,
inside of so many braces more.  In front of a rule, where there are none more, the text opens
none. -/
structure Tracks (braces : Nat) (stack : List Bracket) (cs : List Char) : Prop where
  intro ::
  exists_closes : ∃ inner depth nest, Closes inner depth cs ∧ nest.Sublist inner ∧
    stack = nest ++ List.replicate (depth + braces) .curly ∧
    (braces = 0 → depth = 0 ∧ '\x7b' ∉ cs)

section Tracks

variable {braces : Nat} {stack : List Bracket} {b : Bracket} {cs : List Char}

theorem Tracks.of_free {u : List Char} (hu : Free u) (h : Tracks braces stack (u ++ cs)) :
    Tracks braces stack cs := by
  obtain ⟨inner, depth, nest, hcloses, hsub, hstack, hfront⟩ := h
  refine ⟨inner, depth, nest, hcloses.of_free hu, hsub, hstack, fun hzero => ?_⟩
  exact ⟨(hfront hzero).1, fun hmem => (hfront hzero).2 (List.mem_append_right u hmem)⟩

theorem Tracks.of_nil (h : Tracks braces stack []) : stack = List.replicate braces .curly := by
  obtain ⟨inner, depth, nest, hcloses, hsub, hstack, -⟩ := h
  cases hcloses
  rw [hstack, List.sublist_nil.1 hsub, Nat.zero_add, List.nil_append]

theorem Tracks.of_opener (h : Tracks braces stack (b.opener :: cs)) :
    Tracks braces (b :: stack) cs := by
  obtain ⟨inner, depth, nest, hcloses, hsub, rfl, hfront⟩ := h
  have hafter (hzero : braces = 0) : '\x7b' ∉ cs :=
    fun hmem => (hfront hzero).2 (List.mem_cons_of_mem _ hmem)
  rcases hcloses.of_opener with ⟨hcurly, hrest⟩ | ⟨rfl, rfl, hrest⟩
  · exact ⟨b :: inner, depth, b :: nest, hrest, hsub.cons_cons b, rfl,
      fun hzero => ⟨(hfront hzero).1, hafter hzero⟩⟩
  · rw [List.sublist_nil.1 hsub]
    refine ⟨[], depth + 1, [], hrest, .slnil, ?_, fun hzero => ?_⟩
    · rw [Nat.add_right_comm, List.replicate_succ]
      rfl
    · exact absurd List.mem_cons_self (hfront hzero).2

/-- A closing bracket closes what the machine holds, or what it has lost sight of.  In the second
case it does not match what the machine holds. -/
theorem Tracks.of_closer (h : Tracks braces stack (b.closer :: cs)) :
    (∃ outer, stack = b :: outer ∧ (b ≠ .curly ∨ outer ≠ []) ∧ Tracks braces outer cs) ∨
      b ≠ .curly ∧ stack.head? ≠ some b ∧ Tracks braces stack cs := by
  obtain ⟨inner, depth, nest, hcloses, hsub, rfl, hfront⟩ := h
  have hafter (hzero : braces = 0) : '\x7b' ∉ cs :=
    fun hmem => (hfront hzero).2 (List.mem_cons_of_mem _ hmem)
  rcases hcloses.of_closer with ⟨hcurly, outer, rfl, hrest⟩ | ⟨rfl, rfl, depth, rfl, hrest⟩
  · have hfront' (hzero : braces = 0) : depth = 0 ∧ '\x7b' ∉ cs :=
      ⟨(hfront hzero).1, hafter hzero⟩
    cases nest with
    | nil =>
        refine Or.inr ⟨hcurly, ?_, outer, depth, [], hrest, List.nil_sublist outer, rfl, hfront'⟩
        cases depth + braces with
        | zero => simp
        | succ n => simpa [List.replicate_succ] using Ne.symm hcurly
    | cons b' nest =>
        by_cases hb : b' = b
        · subst hb
          exact Or.inl ⟨_, rfl, Or.inl hcurly, outer, depth, nest, hrest,
            List.cons_sublist_cons.1 hsub, rfl, hfront'⟩
        · have hsub' : (b' :: nest).Sublist outer := by
            cases hsub with
            | cons _ hsub => exact hsub
            | cons_cons => exact absurd rfl hb
          refine Or.inr ⟨hcurly, ?_, outer, depth, b' :: nest, hrest, hsub', rfl, hfront'⟩
          simpa using hb
  · rw [List.sublist_nil.1 hsub, Nat.add_right_comm, List.replicate_succ]
    refine Or.inl ⟨_, rfl, Or.inr ?_, [], depth, [], hrest, .slnil, rfl, fun hzero => ?_⟩
    · intro hnil
      have hzero : depth + braces = 0 := by simpa using hnil
      have hdepth := (hfront (by omega)).1
      omega
    · have hdepth := (hfront hzero).1
      omega

/-- The machine keeps its stack over a url, whatever brackets the url takes along. -/
theorem Tracks.of_round (h : Tracks braces stack ('(' :: cs)) :
    ∃ u rest, cs = u ++ ')' :: rest ∧ ')' ∉ u ∧ Tracks braces stack rest := by
  obtain ⟨inner, depth, nest, hcloses, hsub, rfl, hfront⟩ := h
  rcases hcloses.of_opener (b := .round) with ⟨-, hcloses⟩ | ⟨hcurly, -⟩
  · obtain ⟨u, rest, above, rfl, hu, hrest⟩ := hcloses.exists_round ⟨[], rfl⟩
    refine ⟨u, rest, rfl, hu, above ++ inner, depth, nest, hrest,
      hsub.trans (List.sublist_append_right above inner), rfl, fun hzero => ?_⟩
    exact ⟨(hfront hzero).1, fun hmem => (hfront hzero).2 (by simp [hmem])⟩
  · cases hcurly

theorem Tracks.stack_ne_nil (h : Tracks braces stack cs) (hbraces : 0 < braces) : stack ≠ [] := by
  obtain ⟨inner, depth, nest, -, -, rfl, -⟩ := h
  intro hnil
  have hzero : depth + braces = 0 := by simpa using (List.append_eq_nil_iff.1 hnil).2
  omega

variable {x : Lexeme} {xs : List Lexeme} {pending rest tail : List Char} {e : Char}

/-- White space and plain lexemes leave the stack as it is. -/
theorem cut_neutral (hkind : x.kind = .blank ∨ x.kind = .plain)
    (hstarts : stack ≠ [] ∨ pending ≠ [] ∨ x.kind = .plain) :
    cut pending stack (x :: xs) = cut (pending ++ x.text) stack xs := by
  have hopens : ¬x.opens := by
    rintro ⟨b, hb⟩
    rcases hkind with hkind | hkind <;> cases hkind.symm.trans hb
  have hcloses (b : Bracket) : x.kind ≠ .closing b := by
    intro hb
    rcases hkind with hkind | hkind <;> cases hkind.symm.trans hb
  cases stack with
  | nil =>
      apply cut_outer hopens (hcloses .curly)
      rcases hstarts with hstack | hpending | hplain
      · exact absurd rfl hstack
      · exact Or.inl hpending
      · refine Or.inr ⟨?_, ?_, hcloses .curly⟩ <;> simp [hplain]
  | cons b outer => exact cut_inner hopens (hcloses b)

/-- A closing bracket that matches nothing leaves the stack as it is, if it is not a brace. -/
theorem cut_mismatched (hkind : x.kind = .closing b) (hcurly : b ≠ .curly)
    (hstack : stack.head? ≠ some b) :
    cut pending stack (x :: xs) = cut (pending ++ x.text) stack xs := by
  have hopens : ¬x.opens := by
    rintro ⟨b', hb'⟩
    cases hkind.symm.trans hb'
  have hcloses {b' : Bracket} (hb' : b ≠ b') : x.kind ≠ .closing b' := by
    rw [hkind]
    exact fun heq => hb' (Kind.closing.inj heq)
  cases stack with
  | nil =>
      refine cut_outer hopens (hcloses hcurly) (Or.inr ⟨?_, ?_, hcloses hcurly⟩) <;> simp [hkind]
  | cons b' outer =>
      refine cut_inner hopens (hcloses ?_)
      rintro rfl
      exact hstack rfl

theorem exists_append_of_free {w : List Char} (hw : Free w) (he : isBracket e = true)
    (htext : cs ++ e :: tail = w ++ rest) : ∃ left, cs = w ++ left ∧ rest = left ++ e :: tail := by
  induction w generalizing cs with
  | nil => exact ⟨cs, rfl, htext.symm⟩
  | cons c w ih =>
      have hc : isBracket c = false := hw c List.mem_cons_self
      cases cs with
      | nil =>
          rw [(List.cons.inj htext).1] at he
          cases hc.symm.trans he
      | cons d cs =>
          obtain ⟨rfl, hafter⟩ := List.cons.inj htext
          obtain ⟨left, rfl, hrest⟩ := ih (fun z hz => hw z (List.mem_cons_of_mem d hz)) hafter
          exact ⟨left, rfl, hrest⟩

/-- A function name and its parenthesis do not reach over a brace either. -/
theorem exists_append_of_round {w : List Char} (hw : Free w) (he : e = '\x7b' ∨ e = '\x7d')
    (htext : cs ++ e :: tail = w ++ '(' :: rest) :
    ∃ left, cs = w ++ '(' :: left ∧ rest = left ++ e :: tail := by
  have hbracket : isBracket e = true := by
    rcases he with rfl | rfl <;> rfl
  obtain ⟨left, rfl, hleft⟩ := exists_append_of_free hw hbracket htext
  cases left with
  | nil =>
      obtain ⟨rfl, -⟩ := List.cons.inj hleft
      rcases he with he | he <;> cases he
  | cons c left =>
      obtain ⟨rfl, hrest⟩ := List.cons.inj hleft
      exact ⟨left, rfl, hrest⟩

/-- The first lexeme of a text that is tracked lies in it, and what follows is tracked again. -/
theorem Tracks.step (h : Tracks braces stack cs) (hne : cs ≠ [])
    (he : e = '\x7b' ∨ e = '\x7d') (hx : TameLexeme x rest)
    (htext : cs ++ e :: tail = x.text ++ rest)
    (hstarts : 0 < braces ∨ pending ≠ [] ∨ ∀ c ∈ cs.head?, isSpace c = false) :
    ∃ left stack', cs = x.text ++ left ∧ rest = left ++ e :: tail ∧ Tracks braces stack' left ∧
      ∀ xs, cut pending stack (x :: xs) = cut (pending ++ x.text) stack' xs := by
  have hbracket : isBracket e = true := by
    rcases he with rfl | rfl <;> rfl
  obtain ⟨first, cs, rfl⟩ := List.exists_cons_of_ne_nil hne
  cases hx with
  | @blank c text rest hspace hfree =>
      obtain ⟨left, hleft, hrest⟩ := exists_append_of_free hfree hbracket htext
      rw [hleft] at h
      refine ⟨left, stack, hleft, hrest, h.of_free hfree, fun xs => cut_neutral (Or.inl rfl) ?_⟩
      rcases hstarts with hbraces | hpending | hfirst
      · exact Or.inl (h.stack_ne_nil hbraces)
      · exact Or.inr (Or.inl hpending)
      · obtain ⟨rfl, -⟩ := List.cons.inj hleft
        cases (hfirst first rfl).symm.trans hspace
  | plain hfree =>
      obtain ⟨left, hleft, hrest⟩ := exists_append_of_free hfree hbracket htext
      rw [hleft] at h
      exact ⟨left, stack, hleft, hrest, h.of_free hfree,
        fun xs => cut_neutral (Or.inr rfl) (Or.inr (Or.inr rfl))⟩
  | @opening b =>
      obtain ⟨rfl, rfl⟩ := List.cons.inj htext
      exact ⟨cs, b :: stack, rfl, rfl, h.of_opener, fun xs => cut_opening rfl⟩
  | @closing b =>
      obtain ⟨rfl, rfl⟩ := List.cons.inj htext
      rcases h.of_closer with ⟨outer, rfl, houter, hleft⟩ | ⟨hcurly, hhead, hleft⟩
      · exact ⟨cs, outer, rfl, rfl, hleft, fun xs => cut_closing rfl houter⟩
      · exact ⟨cs, stack, rfl, rfl, hleft, fun xs => cut_mismatched rfl hcurly hhead⟩
  | @function name rest hfree =>
      rw [List.append_assoc, List.singleton_append] at htext
      obtain ⟨left, hleft, hrest⟩ := exists_append_of_round hfree he htext
      rw [hleft] at h ⊢
      exact ⟨left, .round :: stack, by simp, hrest, (h.of_free hfree).of_opener (b := .round),
        fun xs => cut_opening rfl⟩
  | @url name arguments hfree =>
      rw [List.append_assoc, show '(' :: arguments.take (roundSpan arguments) ++
        arguments.drop (roundSpan arguments) = '(' :: arguments by simp] at htext
      obtain ⟨left, hleft, rfl⟩ := exists_append_of_round hfree he htext
      rw [hleft] at h ⊢
      obtain ⟨u, left, rfl, hu, hafter⟩ := (h.of_free hfree).of_round
      have hspan : roundSpan (u ++ ')' :: left ++ e :: tail) = (u ++ [')']).length := by
        rw [List.append_assoc, roundSpan_append hu, List.cons_append, roundSpan, if_pos rfl,
          List.length_append, List.length_singleton]
      have hsplit : u ++ ')' :: left ++ e :: tail = (u ++ [')']) ++ (left ++ e :: tail) := by simp
      rw [hspan, hsplit, List.take_left' rfl, List.drop_left' rfl]
      exact ⟨left, stack, by simp, rfl, hafter,
        fun xs => cut_neutral (Or.inr rfl) (Or.inr (Or.inr rfl))⟩

theorem text_ne_nil_of_tameLexeme (hx : TameLexeme x rest) : x.text ≠ [] := by
  cases hx <;> simp

/-- The machine reads all of a text that is tracked and comes to the brace behind it with nothing on
its stack but the braces around the text. -/
theorem cut_tracks (h : Tracks braces stack cs) (he : e = '\x7b' ∨ e = '\x7d')
    (htame : Tame (cs ++ e :: tail))
    (hstarts : 0 < braces ∨ pending ≠ [] ∨ ∀ c ∈ cs.head?, isSpace c = false) :
    cut pending stack (lex (cs ++ e :: tail)) =
      cut (pending ++ cs) (List.replicate braces .curly) (lex (e :: tail)) := by
  induction hlength : cs.length using Nat.strongRecOn generalizing cs stack pending with
  | ind n ih =>
      by_cases hnil : cs = []
      · subst hnil
        rw [h.of_nil, List.append_nil, List.nil_append]
      · obtain ⟨first, others, hcons⟩ := List.exists_cons_of_ne_nil hnil
        have hlex : ∃ x rest, TameLexeme x rest ∧ cs ++ e :: tail = x.text ++ rest ∧
            lex (cs ++ e :: tail) = x :: lex rest := by
          rw [hcons] at htame ⊢
          exact lex_tame htame
        obtain ⟨x, rest, hx, htext, hlex⟩ := hlex
        obtain ⟨left, stack', hleft, rfl, htracks, hcut⟩ := h.step hnil he hx htext hstarts
        have hshort : left.length < n := by
          have hpos := List.length_pos_iff.2 (text_ne_nil_of_tameLexeme hx)
          rw [← hlength, hleft, List.length_append]
          omega
        have hgrown : pending ++ x.text ≠ [] :=
          List.append_ne_nil_of_right_ne_nil _ (text_ne_nil_of_tameLexeme hx)
        rw [hlex, hcut, ih _ hshort htracks (htext ▸ htame).of_append (Or.inr (Or.inl hgrown)) rfl,
          List.append_assoc, ← hleft]

end Tracks

/-- A selector and a body that close what they open make a rule, and the machine finds it. -/
theorem cut_braceRule {selector body tail : List Char} (hselector : Closes [] 0 selector)
    (hbrace : '\x7b' ∉ selector) (hstarts : ∀ c ∈ selector.head?, isSpace c = false)
    (hbody : Closes [] 0 body)
    (htame : Tame (selector ++ '\x7b' :: (body ++ '\x7d' :: tail))) :
    cut [] [] (lex (selector ++ '\x7b' :: (body ++ '\x7d' :: tail))) =
      (selector ++ '\x7b' :: (body ++ ['\x7d'])) :: cut [] [] (lex tail) := by
  have hfront : Tracks 0 [] selector := ⟨[], 0, [], hselector, .slnil, rfl, fun _ => ⟨rfl, hbrace⟩⟩
  have hinside : Tracks 1 [.curly] body :=
    ⟨[], 0, [], hbody, .slnil, rfl, fun hone => absurd hone (by decide)⟩
  have hopened : Tame (body ++ '\x7d' :: tail) := htame.of_append.of_append (u := ['\x7b'])
  have hlex : lex ('\x7b' :: (body ++ '\x7d' :: tail)) =
      ⟨.opening .curly, ['\x7b']⟩ :: lex (body ++ '\x7d' :: tail) := by
    have hscan (cs : List Char) : scan '\x7b' cs = (.opening .curly, 1) := by
      simp [scan, isSpace, isNewline]
    rw [lex_cons, hscan]
    rfl
  have hlex' : lex ('\x7d' :: tail) = ⟨.closing .curly, ['\x7d']⟩ :: lex tail := by
    rw [lex_cons, scan_brace]
    rfl
  calc
    cut [] [] (lex (selector ++ '\x7b' :: (body ++ '\x7d' :: tail)))
    _ = cut selector [] (lex ('\x7b' :: (body ++ '\x7d' :: tail))) :=
        cut_tracks hfront (Or.inl rfl) htame (Or.inr (Or.inr hstarts))
    _ = cut (selector ++ ['\x7b']) [.curly] (lex (body ++ '\x7d' :: tail)) := by
        rw [hlex, cut_opening rfl]
    _ = cut (selector ++ ['\x7b'] ++ body) [.curly] (lex ('\x7d' :: tail)) :=
        cut_tracks hinside (Or.inr rfl) hopened (Or.inl Nat.zero_lt_one)
    _ = (selector ++ '\x7b' :: (body ++ ['\x7d'])) :: cut [] [] (lex tail) := by
        rw [hlex', cut_ends rfl]
        simp

end ScopedCss.Css
