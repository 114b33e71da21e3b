/-
# Lexemes at the end of a text

What stands behind a text may change its last lexeme.  If only stops stand there, or the text ends
with a closing brace, then this is all that changes: the lexemes that end inside of the text stay,
and the one at its end keeps its kind and grows at most (`scan_overlap`).  There is one exception.
A backslash at the end of a text belongs to the name in front of it, and before a newline it does
not.
-/

import ScopedCss.Proofs.Css.Forward
import ScopedCss.Proofs.Css.Stop

namespace ScopedCss.Css

/-- Whether a lexeme opens or closes a bracket. -/
def Kind.isBracket : Kind → Bool
  | .opening _ | .closing _ => true
  | .blank | .comment | .plain => false

/-- Only stops stand behind the text, or the text ends with a closing brace. -/
def Bounded (t r : List Char) : Prop :=
  (∀ c ∈ r, isStop c = true) ∨ t.getLast? = some '\x7d'

/-- What is found at the front of a text, and with more text behind it. -/
structure Overlap (t r : List Char) (found found' : Kind × Nat) : Prop where
  length : AgreesToEdge t r found.2 found'.2
  kind : (found.2 < t.length ∨ ∀ c ∈ r, isStop c = true) → found'.1 = found.1
  bracket : (∀ c ∈ r, isStop c = true) → found.1.isBracket = true → found'.2 = found.2

variable {t r : List Char}

section Bounded

theorem Bounded.cons (h : Bounded t r) (c : Char) : Bounded (c :: t) r := by
  refine h.imp_right fun hlast => ?_
  cases t with
  | nil => cases hlast
  | cons d t => rw [List.getLast?_cons_cons, hlast]

theorem Bounded.drop (h : Bounded t r) {n : Nat} (hn : n < t.length) : Bounded (t.drop n) r := by
  refine h.imp_right fun hlast => ?_
  rw [List.getLast?_drop, if_neg (Nat.not_le.2 hn), hlast]

/-- What does not change with a stop behind a text does not change behind a bounded text. -/
theorem Bounded.congr {α : Type} {f : List Char → α} (hf : ∀ t r, Stops r → f (t ++ r) = f t)
    (h : Bounded t r) : f (t ++ r) = f t := by
  rcases h with hr | hlast
  · exact hf t r (stops_of_forall hr)
  · obtain ⟨u, rfl⟩ := List.getLast?_eq_some_iff.1 hlast
    rw [List.append_assoc, List.singleton_append, hf u _ (stops_brace r), hf u _ (stops_brace [])]

theorem Bounded.numeralLength_append (h : Bounded t r) :
    numeralLength (t ++ r) = numeralLength t ∧
      (numeralLength t < t.length ∨ numeralLength t = t.length ∧ ∀ c ∈ r, isStop c = true) := by
  refine ⟨h.congr fun t r hr => (Css.numeralLength_append hr t).1, ?_⟩
  rcases h with hr | hlast
  · have hle := (Css.numeralLength_append stops_nil t).2
    rcases Nat.lt_or_eq_of_le hle with hlt | heq
    · exact Or.inl hlt
    · exact Or.inr ⟨heq, hr⟩
  · obtain ⟨u, rfl⟩ := List.getLast?_eq_some_iff.1 hlast
    obtain ⟨heq, hle⟩ := Css.numeralLength_append (stops_brace []) u
    left
    rw [heq, List.length_append]
    exact Nat.lt_succ_of_le hle

theorem Bounded.startsName_append (h : Bounded t r)
    (hedge : ¬(t = ['\\'] ∧ startsNewline r = true)) : startsName (t ++ r) = startsName t := by
  rcases h with hr | hlast
  · refine Css.startsName_append (stops_of_forall hr) fun ht => ?_
    exact Bool.eq_false_iff.2 fun hnewline => hedge ⟨ht, hnewline⟩
  · obtain ⟨u, rfl⟩ := List.getLast?_eq_some_iff.1 hlast
    rw [List.append_assoc, List.singleton_append,
      Css.startsName_append (stops_brace r) fun _ => rfl,
      Css.startsName_append (stops_brace []) fun _ => rfl]

end Bounded

theorem unitLength_cons {c : Char} (hpercent : c ≠ '%') (cs : List Char) :
    unitLength (c :: cs) = if startsName (c :: cs) then nameLength 0 (c :: cs) else 0 := by
  rw [unitLength]
  simp [hpercent]

theorem unitLength_overlap (h : Bounded t r) :
    AgreesToEdge t r (unitLength t) (unitLength (t ++ r)) := by
  cases t with
  | nil => exact Or.inl agrees_nil
  | cons c t =>
      by_cases hpercent : c = '%'
      · subst hpercent
        exact Or.inl (agrees_one t)
      · rw [List.cons_append, unitLength_cons hpercent, unitLength_cons hpercent,
          ← List.cons_append]
        by_cases hedge : c :: t = ['\\'] ∧ startsNewline r = true
        · obtain ⟨hbackslash, hnewline⟩ := hedge
          obtain ⟨rfl, rfl⟩ := List.cons.inj hbackslash
          have hstarts : startsName (['\\'] ++ r) = false := congrArg not hnewline
          rw [hstarts]
          exact Or.inr ⟨⟨rfl, hnewline⟩, rfl, rfl⟩
        · rw [h.startsName_append hedge]
          split
          · exact nameLength_forward (c :: t) r skips_refl
          · exact Or.inl (agrees_of_lt (Nat.succ_pos _))

theorem AgreesToEdge.of_drop {k m n : Nat} (h : AgreesToEdge (t.drop k) r m n)
    (hk : k ≤ t.length) : AgreesToEdge t r (k + m) (k + n) := by
  rcases h with h | ⟨⟨hlast, hnewline⟩, hm, hn⟩
  · left
    unfold Agrees at *
    rw [List.length_drop] at h
    omega
  · rw [List.length_drop] at hm hn
    refine Or.inr ⟨⟨?_, hnewline⟩, by omega, by omega⟩
    rw [List.getLast?_drop] at hlast
    split at hlast
    · cases hlast
    · exact hlast

theorem numericLength_overlap (h : Bounded t r) :
    AgreesToEdge t r (numericLength t) (numericLength (t ++ r)) := by
  obtain ⟨heq, hlt⟩ := h.numeralLength_append
  have hle : numeralLength t ≤ t.length := hlt.elim Nat.le_of_lt fun hr => Nat.le_of_eq hr.1
  have hbounded : Bounded (t.drop (numeralLength t)) r :=
    hlt.elim h.drop fun hr => Or.inl hr.2
  rw [numericLength_eq, numericLength_eq, heq, List.drop_append_of_le_length hle]
  exact (unitLength_overlap hbounded).of_drop hle

theorem unquotedUrlLength?_of_quote {cs : List Char}
    (hquote : (cs.drop (spaceRun cs)).head? = some '"' ∨
      (cs.drop (spaceRun cs)).head? = some '\'') :
    unquotedUrlLength? cs = none := by
  rcases hquote with hquote | hquote
  all_goals
    obtain ⟨u, hu⟩ := List.head?_eq_some_iff.1 hquote
    simp only [unquotedUrlLength?, hu]

theorem unquotedUrlLength?_of_not_quote {cs : List Char}
    (hdouble : (cs.drop (spaceRun cs)).head? ≠ some '"')
    (hsingle : (cs.drop (spaceRun cs)).head? ≠ some '\'') :
    unquotedUrlLength? cs = some (spaceRun cs + urlLength 0 (cs.drop (spaceRun cs))) := by
  simp only [unquotedUrlLength?]
  split
  · simp_all
  · simp_all
  · rfl

theorem head?_drop_append {n : Nat} (h : n < t.length) (r : List Char) :
    ((t ++ r).drop n).head? = (t.drop n).head? := by
  rw [List.head?_drop, List.head?_drop, List.getElem?_append_left h]

/-- What stands behind a url that is not over yet does not make a function of it. -/
theorem unquotedUrlLength?_overlap (h : Bounded t r) :
    unquotedUrlLength? t = none ∧ unquotedUrlLength? (t ++ r) = none ∨
      ∃ m n, unquotedUrlLength? t = some m ∧ unquotedUrlLength? (t ++ r) = some n ∧
        Agrees t.length m n := by
  have hspaces := readsForward_spaceRun t r
  rcases hspaces with ⟨hlt, hrun⟩ | ⟨hall, hrun⟩
  · have hdrop : (t ++ r).drop (spaceRun (t ++ r)) = t.drop (spaceRun t) ++ r := by
      rw [hrun, List.drop_append_of_le_length (Nat.le_of_lt hlt)]
    have hhead : ((t ++ r).drop (spaceRun (t ++ r))).head? = (t.drop (spaceRun t)).head? := by
      rw [hrun, head?_drop_append hlt]
    by_cases hquote : (t.drop (spaceRun t)).head? = some '"' ∨
        (t.drop (spaceRun t)).head? = some '\''
    · exact Or.inl ⟨unquotedUrlLength?_of_quote hquote,
        unquotedUrlLength?_of_quote (by rwa [hhead])⟩
    · rw [not_or] at hquote
      refine Or.inr ⟨_, _, unquotedUrlLength?_of_not_quote hquote.1 hquote.2,
        unquotedUrlLength?_of_not_quote (by rw [hhead]; exact hquote.1)
          (by rw [hhead]; exact hquote.2), ?_⟩
      have hurl := readsForward_urlLength (t.drop (spaceRun t)) r
      rw [hdrop, hrun]
      unfold Agrees at *
      rw [List.length_drop] at hurl
      omega
  · -- There is nothing but white space, so stops must follow, and no quote is among them.
    have hr : ∀ c ∈ r, isStop c = true := by
      refine h.resolve_right fun hlast => ?_
      have hspace := List.all_eq_true.1 (List.all_takeWhile (p := isSpace) (l := t)) '\x7d'
      rw [(List.takeWhile_prefix isSpace).eq_of_length hall] at hspace
      cases hspace (List.mem_of_getLast? hlast)
    have hnil : t.drop (spaceRun t) = [] := by rw [hall, List.drop_length]
    have hquote {q : Char} (hq : isStop q = false) :
        ((t ++ r).drop (spaceRun (t ++ r))).head? ≠ some q := by
      intro hhead
      rw [List.drop_append, List.drop_eq_nil_of_le hrun, List.nil_append] at hhead
      cases hq.symm.trans (hr q (List.mem_of_mem_drop (List.mem_of_mem_head? hhead)))
    refine Or.inr ⟨_, _, unquotedUrlLength?_of_not_quote (by simp [hnil]) (by simp [hnil]),
      unquotedUrlLength?_of_not_quote (hquote (by decide)) (hquote (by decide)), ?_⟩
    rw [hnil, hall]
    exact Or.inr ⟨rfl, Nat.le_trans hrun (Nat.le_add_right _ _)⟩

theorem agrees_of_le {len m : Nat} (h : m ≤ len) : Agrees len m m := by
  unfold Agrees
  omega

theorem functionScan_overlap (h : Bounded t r) (name : List Char) (n : Nat) :
    (functionScan name (t ++ r) n).1 = (functionScan name t n).1 ∧
      Agrees (n + 1 + t.length) (functionScan name t n).2 (functionScan name (t ++ r) n).2 ∧
      ((functionScan name t n).1.isBracket = true →
        (functionScan name (t ++ r) n).2 = (functionScan name t n).2) := by
  have hfunction : Agrees (n + 1 + t.length) (n + 1) (n + 1) :=
    agrees_of_le (Nat.le_add_right _ _)
  unfold functionScan
  split
  · rcases unquotedUrlLength?_overlap h with ⟨hnone, hnone'⟩ | ⟨m, m', hsome, hsome', hagrees⟩
    · rw [hnone, hnone']
      exact ⟨rfl, hfunction, fun _ => rfl⟩
    · rw [hsome, hsome']
      refine ⟨rfl, ?_, nofun⟩
      unfold Agrees at *
      simp only [Option.elim]
      omega
  · exact ⟨rfl, hfunction, fun _ => rfl⟩

theorem Bounded.of_cons {c : Char} (h : Bounded (c :: t) r) (hc : c ≠ '\x7d') : Bounded t r := by
  refine h.imp_right fun hlast => ?_
  cases t with
  | nil => exact absurd (Option.some.inj hlast) hc
  | cons d t => rwa [List.getLast?_cons_cons] at hlast

theorem scanName_overlap (h : Bounded t r) : Overlap t r (scanName t) (scanName (t ++ r)) := by
  rcases nameLength_forward t r skips_refl with (⟨hlt, heq⟩ | ⟨hall, hle⟩) | ⟨hedge, hall, hshort⟩
  · have hdrop : (t ++ r).drop (nameLength 0 (t ++ r)) = t.drop (nameLength 0 t) ++ r := by
      rw [heq, List.drop_append_of_le_length (Nat.le_of_lt hlt)]
    by_cases hround : (t.drop (nameLength 0 t)).head? = some '('
    · obtain ⟨arguments, harguments⟩ := List.head?_eq_some_iff.1 hround
      have hlength : nameLength 0 t + 1 + arguments.length = t.length := by
        have hcount := congrArg List.length harguments
        rw [List.length_drop, List.length_cons] at hcount
        omega
      have hbounded : Bounded arguments r :=
        (harguments ▸ h.drop hlt).of_cons (by decide)
      obtain ⟨hkind, hagrees, hbracket⟩ :=
        functionScan_overlap hbounded (nameValue 0 t) (nameLength 0 t)
      rw [hlength] at hagrees
      rw [scanName_of_round harguments,
        scanName_of_round (hdrop.trans (congrArg (· ++ r) harguments)), heq,
        nameValue_forward hlt r]
      exact ⟨Or.inl hagrees, fun _ => hkind, fun _ => hbracket⟩
    · have hround' : ((t ++ r).drop (nameLength 0 (t ++ r))).head? ≠ some '(' := by
        rwa [heq, head?_drop_append hlt]
      rw [scanName_of_not_round hround, scanName_of_not_round hround', heq]
      exact ⟨Or.inl (agrees_of_lt hlt), fun _ => rfl, nofun⟩
  · have hround : (t.drop (nameLength 0 t)).head? ≠ some '(' := by
      rw [hall, List.drop_length]
      nofun
    have hplain (hr : ∀ c ∈ r, isStop c = true) : (scanName (t ++ r)).1 = .plain := by
      rw [scanName_of_not_round]
      intro hhead
      rw [List.drop_append, List.drop_eq_nil_of_le hle, List.nil_append] at hhead
      cases hr _ (List.mem_of_mem_drop (List.mem_of_mem_head? hhead))
    rw [scanName_of_not_round hround]
    refine ⟨Or.inl (Or.inr ⟨hall, Nat.le_trans hle (nameLength_le_scanName _)⟩), ?_, nofun⟩
    rintro (hlt | hr)
    · exact absurd hall (Nat.ne_of_lt hlt)
    · exact hplain hr
  · have hround : (t.drop (nameLength 0 t)).head? ≠ some '(' := by
      rw [hall, List.drop_length]
      nofun
    have hround' : ((t ++ r).drop (nameLength 0 (t ++ r))).head? ≠ some '(' := by
      obtain ⟨u, rfl⟩ := List.getLast?_eq_some_iff.1 hedge.1
      have hu : nameLength 0 (u ++ ['\\'] ++ r) = u.length := by simpa using hshort
      rw [hu, List.append_assoc, List.drop_left' rfl]
      nofun
    rw [scanName_of_not_round hround, scanName_of_not_round hround']
    exact ⟨Or.inr ⟨hedge, hall, hshort⟩, fun _ => rfl, nofun⟩

theorem overlap_of_length {k : Kind} {m n : Nat} (h : AgreesToEdge t r m n)
    (hbracket : k.isBracket = false) : Overlap t r (k, m) (k, n) :=
  ⟨h, fun _ => rfl, fun _ hk => by cases hbracket.symm.trans hk⟩

theorem overlap_of_le {k : Kind} {m : Nat} (h : m ≤ t.length) : Overlap t r (k, m) (k, m) :=
  ⟨Or.inl (agrees_of_le h), fun _ => rfl, fun _ _ => rfl⟩

theorem overlap_ite {p q : Prop} [Decidable p] [Decidable q] {a a' b b' : Kind × Nat} (hpq : q ↔ p)
    (ha : p → Overlap t r a a') (hb : Overlap t r b b') :
    Overlap t r (if p then a else b) (if q then a' else b') := by
  by_cases hp : p
  · rw [if_pos hp, if_pos (hpq.2 hp)]
    exact ha hp
  · rw [if_neg hp, if_neg (mt hpq.1 hp)]
    exact hb

theorem Bounded.isPrefixOf_append (h : Bounded t r) {p : List Char}
    (hp : p.any isStop = false) : p.isPrefixOf (t ++ r) = p.isPrefixOf t :=
  h.congr fun t _ hr => Css.isPrefixOf_append hp hr t

theorem length_le_of_isPrefixOf {p : List Char} (h : p.isPrefixOf t = true) :
    p.length ≤ t.length :=
  (List.isPrefixOf_iff_prefix.1 h).length_le

/-- The last two tests of `scan`. -/
theorem name_overlap {c : Char} {cs : List Char} (h : Bounded cs r) :
    Overlap (c :: cs) r (if startsName (c :: cs) then scanName (c :: cs) else (.plain, 1))
      (if startsName (c :: (cs ++ r)) then scanName (c :: (cs ++ r)) else (.plain, 1)) := by
  by_cases hedge : c :: cs = ['\\'] ∧ startsNewline r = true
  · -- The backslash is a lexeme by itself either way.
    obtain ⟨heq, hnewline⟩ := hedge
    obtain ⟨rfl, rfl⟩ := List.cons.inj heq
    have hstarts : startsName ('\\' :: ([] ++ r)) = false := congrArg not hnewline
    rw [hstarts]
    exact overlap_of_le (Nat.le_refl 1)
  · exact overlap_ite (by rw [← List.cons_append, (h.cons c).startsName_append hedge])
      (fun _ => scanName_overlap (h.cons c)) (overlap_of_le (Nat.succ_pos _))

/-- The test of `scan` for an at-keyword, and what follows it. -/
theorem at_overlap {c : Char} {cs : List Char} {m n : Nat} {b b' : Kind × Nat} (h : Bounded cs r)
    (hname : AgreesToEdge (c :: cs) r m n) (hb : Overlap (c :: cs) r b b')
    (hat : c = '@' → cs = ['\\'] → startsNewline r = true →
      Overlap (c :: cs) r (.plain, m) b') :
    Overlap (c :: cs) r (if c = '@' ∧ startsName cs = true then (.plain, m) else b)
      (if c = '@' ∧ startsName (cs ++ r) = true then (.plain, n) else b') := by
  by_cases hedge : cs = ['\\'] ∧ startsNewline r = true
  · obtain ⟨rfl, hnewline⟩ := hedge
    have hstarts : startsName (['\\'] ++ r) = false := congrArg not hnewline
    rw [if_neg (c := c = '@' ∧ startsName (['\\'] ++ r) = true)
      fun hkeyword => Bool.false_ne_true (hstarts.symm.trans hkeyword.2)]
    split
    · next hkeyword => exact hat hkeyword.1 rfl hnewline
    · exact hb
  · exact overlap_ite (by rw [h.startsName_append hedge]) (fun _ => overlap_of_length hname rfl) hb

/-- What is found at the front of a text does not depend on what stands behind the text, but for the
length of a lexeme that reaches its end. -/
theorem scan_overlap {c : Char} {cs : List Char} (h : Bounded cs r) :
    Overlap (c :: cs) r (scan c cs) (scan c (cs ++ r)) := by
  have hstar : (cs ++ r).head? = some '*' ↔ cs.head? = some '*' := by
    have hdecide := h.congr (f := fun u => decide (u.head? = some '*')) fun t r hr =>
      decide_eq_decide.2 (head?_append_stop hr rfl t)
    exact decide_eq_decide.1 hdecide
  have hunsigned (u : List Char) (hu : Bounded u r) :
      startsUnsigned (u ++ r) = startsUnsigned u :=
    hu.congr fun t r hr => startsUnsigned_append hr t
  have hnumeric := numericLength_overlap (h.cons c)
  unfold scan
  -- One step for each test of `scan`, in its order.
  refine overlap_ite Iff.rfl
    (fun _ => overlap_of_length (Or.inl (readsForward_spaceRun cs r).succ) rfl) ?_
  refine overlap_ite Iff.rfl
    (fun _ => overlap_of_length (Or.inl (readsForward_stringLength c cs r).succ) rfl) ?_
  iterate 6 refine overlap_ite Iff.rfl (fun _ => overlap_of_le (Nat.succ_pos _)) ?_
  refine overlap_ite (by rw [hstar]) (fun hcomment => ?_) ?_
  · obtain ⟨u, rfl⟩ := List.head?_eq_some_iff.1 hcomment.2
    exact overlap_of_length (Or.inl (readsForward_commentLength u r).succ_succ) rfl
  refine overlap_ite (by rw [h.isPrefixOf_append rfl]) (fun hdashes => ?_) ?_
  · exact overlap_of_le (Nat.succ_le_succ (length_le_of_isPrefixOf hdashes.2))
  refine overlap_ite (by rw [← List.cons_append, hunsigned _ (h.cons c)])
    (fun _ => overlap_of_length hnumeric rfl) ?_
  refine overlap_ite (by rw [hunsigned _ h]) (fun _ => overlap_of_length hnumeric rfl) ?_
  refine overlap_ite (by rw [h.isPrefixOf_append rfl]) (fun harrow => ?_) ?_
  · exact overlap_of_le (Nat.succ_le_succ (length_le_of_isPrefixOf harrow.2))
  have hname : AgreesToEdge (c :: cs) r (1 + nameLength 0 cs) (1 + nameLength 0 (cs ++ r)) :=
    (nameLength_forward cs r skips_refl).cons c
  refine overlap_ite Iff.rfl (fun _ => overlap_of_length hname rfl) ?_
  refine at_overlap h hname (name_overlap h) ?_
  -- An at-sign in front of a backslash that starts no name is a lexeme by itself.
  rintro rfl rfl hnewline
  exact overlap_of_length (Or.inr ⟨⟨rfl, hnewline⟩, rfl, rfl⟩) rfl

end ScopedCss.Css
