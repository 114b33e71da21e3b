/-
# Scanners that read forward

A scanner reads forward if what it takes of a text does not change when the text goes on, unless it
takes the whole text; then it takes all of that and perhaps more.  Strings, comments and urls are
read in this way whatever stands behind them, and so are names but for one case (`AgreesToEdge`): a
backslash belongs to the name in front of it unless a newline follows.  Numbers are not read
forward, because they look at characters that they do not take.
-/

import ScopedCss.Proofs.Css.Scan

namespace ScopedCss.Css

/-- Of a text of length `len` a scanner takes `m`, and with more text behind it takes `n`. -/
def Agrees (len m n : Nat) : Prop :=
  m < len ∧ n = m ∨ m = len ∧ len ≤ n

/-- A scanner reads forward if it stops inside of a text only where it stops whatever follows. -/
def ReadsForward (scanner : List Char → Nat) : Prop :=
  ∀ t r, Agrees t.length (scanner t) (scanner (t ++ r))

/-- How much is left to skip of a text of length `len`, without and with more text behind it: the
same, or all of the text. -/
def Skips (len k k' : Nat) : Prop :=
  k' = k ∨ len ≤ k ∧ len ≤ k'

section Agrees

variable {len m n k k' : Nat}

theorem agrees_nil : Agrees 0 0 n :=
  Or.inr ⟨rfl, Nat.zero_le n⟩

theorem agrees_of_lt (h : m < len) : Agrees len m m :=
  Or.inl ⟨h, rfl⟩

theorem agrees_one (t : List Char) : Agrees (t.length + 1) 1 1 := by
  unfold Agrees
  omega

theorem agrees_two (t : List Char) : Agrees (t.length + 2) 2 2 := by
  unfold Agrees
  omega

theorem Agrees.succ (h : Agrees len m n) : Agrees (len + 1) (1 + m) (1 + n) := by
  unfold Agrees at *
  omega

theorem Agrees.succ_succ (h : Agrees len m n) : Agrees (len + 2) (2 + m) (2 + n) := by
  unfold Agrees at *
  omega

theorem Agrees.le (h : Agrees len m n) : m ≤ len := by
  unfold Agrees at h
  omega

theorem Skips.of_succ (h : Skips (len + 1) (k + 1) (k' + 1)) : Skips len k k' := by
  unfold Skips at *
  omega

theorem skips_refl : Skips len k k :=
  Or.inl rfl

theorem Skips.eq_zero (h : Skips (len + 1) 0 k) : k = 0 := by
  unfold Skips at h
  omega

theorem Skips.exists_succ (h : Skips (len + 1) (k + 1) k') : ∃ l, k' = l + 1 := by
  unfold Skips at h
  exact ⟨k' - 1, by omega⟩

end Agrees

variable {t r : List Char}

theorem takeWhile_forward {p : Char → Bool} (t r : List Char) :
    Agrees t.length (t.takeWhile p).length ((t ++ r).takeWhile p).length := by
  induction t with
  | nil => exact agrees_nil
  | cons c t ih =>
      simp only [List.cons_append, List.takeWhile_cons]
      split
      · simpa only [List.length_cons, Nat.add_comm] using ih.succ
      · exact agrees_of_lt (Nat.succ_pos _)

theorem readsForward_spaceRun : ReadsForward spaceRun :=
  takeWhile_forward

theorem skips_nil (k k' : Nat) : Skips ([] : List Char).length k k' :=
  Or.inr ⟨Nat.zero_le k, Nat.zero_le k'⟩

/-- A carriage return at the end of a text takes along a line feed behind it. -/
theorem newlineLength_skips (t r : List Char) :
    Skips t.length (newlineLength t) (newlineLength (t ++ r)) := by
  match t with
  | [] => exact skips_nil _ _
  | [c] =>
      by_cases hreturn : c = '\r'
      · subst hreturn
        refine Or.inr ⟨Nat.le_refl 1, ?_⟩
        cases r with
        | nil => exact Nat.le_refl 1
        | cons d r => by_cases hfeed : d = '\n' <;> simp [newlineLength, hfeed, isNewline]
      · exact Or.inl (by simp [newlineLength, hreturn])
  | c :: d :: t =>
      refine Or.inl ?_
      by_cases hreturn : c = '\r'
      · by_cases hfeed : d = '\n' <;> simp [newlineLength, hreturn, hfeed]
      · simp [newlineLength, hreturn]

theorem spaceLength_skips (t r : List Char) :
    Skips t.length (spaceLength t) (spaceLength (t ++ r)) := by
  cases t with
  | nil => exact skips_nil _ _
  | cons c t =>
      have hnewline := newlineLength_skips (c :: t) r
      rw [List.cons_append] at hnewline ⊢
      simp only [spaceLength]
      split
      · exact hnewline
      · exact skips_refl

/-- The digits of an escape end inside of a text, or they are all of it. -/
theorem escapeDigits_forward (t r : List Char) :
    escapeDigits (t ++ r) = escapeDigits t ∨
      (escapeDigits t).length = t.length ∧ t.length ≤ (escapeDigits (t ++ r)).length := by
  simp only [escapeDigits, List.take_append, List.takeWhile_append]
  split
  · next hall =>
    by_cases hmore : 6 ≤ t.length
    · have hnone : 6 - t.length = 0 := Nat.sub_eq_zero_of_le hmore
      left
      rw [hnone, List.take_zero, List.takeWhile_nil, List.append_nil]
      exact (List.takeWhile_prefix isHexDigit).eq_of_length hall |>.symm
    · have htake : t.take 6 = t := List.take_of_length_le (by omega)
      rw [htake] at hall ⊢
      exact Or.inr ⟨hall, by simp⟩
  · exact Or.inl rfl

theorem length_escapeDigits_le (t : List Char) : (escapeDigits t).length ≤ t.length :=
  Nat.le_trans (List.takeWhile_sublist isHexDigit).length_le (List.length_take_le' 6 t)

/-- An escape ends inside of a text, or it takes all of it. -/
theorem escapeLength_skips (t r : List Char) :
    Skips t.length (escapeLength t) (escapeLength (t ++ r)) := by
  by_cases hnil : t = []
  · subst hnil
    exact skips_nil _ _
  have hlength := List.length_pos_iff.2 hnil
  have hle := length_escapeDigits_le t
  unfold escapeLength
  rcases escapeDigits_forward t r with hdigits | ⟨hall, hmore⟩
  · have hspace := spaceLength_skips (t.drop (escapeDigits t).length) r
    rw [List.length_drop] at hspace
    simp only [hdigits, List.drop_append_of_le_length hle, List.length_append]
    split
    · exact Or.inl (by omega)
    · unfold Skips at hspace ⊢
      omega
  · right
    constructor
    · rw [if_neg (by omega)]
      omega
    · rw [if_neg (by omega)]
      omega

/-- How much of a text follows a backslash in a string: a newline or an escape. -/
def continuationLength (cs : List Char) : Nat :=
  if startsNewline cs then newlineLength cs else escapeLength cs

theorem continuationLength_skips (t r : List Char) :
    Skips t.length (continuationLength t) (continuationLength (t ++ r)) := by
  cases t with
  | nil => exact skips_nil _ _
  | cons c t =>
      have hnewline := newlineLength_skips (c :: t) r
      have hescape := escapeLength_skips (c :: t) r
      have hstarts : startsNewline (c :: t ++ r) = startsNewline (c :: t) := rfl
      unfold continuationLength
      rw [hstarts]
      split
      · exact hnewline
      · exact hescape

theorem stringLength_cons_zero (quote c : Char) (cs : List Char) :
    stringLength quote 0 (c :: cs) =
      if c = quote then 1
      else if isNewline c then 0
      else if c = '\\' then 1 + stringLength quote (continuationLength cs) cs
      else 1 + stringLength quote 0 cs := by
  rw [stringLength]
  unfold continuationLength
  split
  · rfl
  · split
    · rfl
    · split
      · split <;> rfl
      · rfl

theorem stringLength_forward (quote : Char) {k k' : Nat} (t r : List Char)
    (hskip : Skips t.length k k') :
    Agrees t.length (stringLength quote k t) (stringLength quote k' (t ++ r)) := by
  induction t generalizing k k' with
  | nil => exact agrees_nil
  | cons c t ih =>
      cases k with
      | succ k =>
          obtain ⟨k', rfl⟩ := hskip.exists_succ
          exact (ih hskip.of_succ).succ
      | zero =>
          rw [hskip.eq_zero, List.cons_append, stringLength_cons_zero, stringLength_cons_zero]
          split
          · exact agrees_one t
          · split
            · exact agrees_of_lt (Nat.succ_pos _)
            · split
              · exact (ih (continuationLength_skips t r)).succ
              · exact (ih skips_refl).succ

theorem readsForward_stringLength (quote : Char) : ReadsForward (stringLength quote 0) :=
  fun t r => stringLength_forward quote t r skips_refl

theorem commentLength_pos (c : Char) (cs : List Char) : 0 < commentLength (c :: cs) := by
  unfold commentLength
  split
  · contradiction
  · exact Nat.succ_pos 1
  · omega

theorem badUrlLength_pos (c : Char) (cs : List Char) : 0 < badUrlLength (c :: cs) := by
  unfold badUrlLength
  split
  · contradiction
  · exact Nat.one_pos
  all_goals omega

/-- A character of a malformed url that neither ends it nor escapes the next one. -/
theorem badUrlLength_cons {c : Char} {cs : List Char} (hround : c ≠ ')')
    (hescape : c = '\\' → ∀ d ∈ cs.head?, d ≠ ')' ∧ d ≠ '\\') :
    badUrlLength (c :: cs) = 1 + badUrlLength cs := by
  rw [badUrlLength]
  · exact hround
  · rintro u rfl rfl
    exact (hescape rfl _ rfl).1 rfl
  · rintro u rfl rfl
    exact (hescape rfl _ rfl).2 rfl

theorem readsForward_commentLength : ReadsForward commentLength := by
  intro t r
  induction t with
  | nil => exact agrees_nil
  | cons c t ih =>
      by_cases hends : c = '*' ∧ t.head? = some '/'
      · obtain ⟨rfl, hslash⟩ := hends
        obtain ⟨u, rfl⟩ := List.head?_eq_some_iff.1 hslash
        exact agrees_two u
      · have hstep (u : List Char) (hu : u.head? = some '/' → t.head? = some '/') :
            commentLength (c :: u) = 1 + commentLength u := by
          rw [commentLength]
          rintro v rfl rfl
          exact hends ⟨rfl, hu rfl⟩
        cases t with
        | nil =>
            -- A star at the end of the text may be half of the closing mark.
            refine Or.inr ⟨by simp [commentLength], ?_⟩
            exact commentLength_pos c r
        | cons d t =>
            have hhead : (d :: t ++ r).head? = (d :: t).head? := rfl
            rw [List.cons_append, hstep _ id, hstep _ (fun h => hhead ▸ h)]
            exact ih.succ

theorem readsForward_badUrlLength : ReadsForward badUrlLength := by
  intro t r
  fun_induction badUrlLength t with
  | case1 => exact agrees_nil
  | case2 t => exact agrees_one t
  | case3 t ih => exact ih.succ_succ
  | case4 t ih => exact ih.succ_succ
  | case5 c t hround hescaped hbackslash ih =>
      have hescape (hc : c = '\\') (d : Char) (hd : d ∈ t.head?) : d ≠ ')' ∧ d ≠ '\\' := by
        obtain ⟨u, rfl⟩ := List.head?_eq_some_iff.1 hd
        exact ⟨fun h => hescaped u hc (h ▸ rfl), fun h => hbackslash u hc (h ▸ rfl)⟩
      rw [List.cons_append]
      cases t with
      | nil => exact Or.inr ⟨rfl, badUrlLength_pos c r⟩
      | cons d t =>
          have hstep : badUrlLength (c :: (d :: t ++ r)) = 1 + badUrlLength (d :: t ++ r) :=
            badUrlLength_cons hround hescape
          rw [hstep]
          exact ih.succ

theorem readsForward_urlEndLength : ReadsForward urlEndLength := by
  intro t r
  induction t with
  | nil => exact agrees_nil
  | cons c t ih =>
      simp only [List.cons_append, urlEndLength]
      split
      · exact ih.succ
      · split
        · exact agrees_one t
        · exact (readsForward_badUrlLength t r).succ

theorem urlLength_cons_zero (c : Char) (cs : List Char) :
    urlLength 0 (c :: cs) =
      if isSpace c then 1 + urlEndLength cs
      else if c = ')' then 1
      else if breaksUrl c then 1 + badUrlLength cs
      else if c = '\\' then
        if startsNewline cs then 1 + badUrlLength cs else 1 + urlLength (escapeLength cs) cs
      else 1 + urlLength 0 cs := by
  rw [urlLength]

theorem urlLength_forward {k k' : Nat} (t r : List Char) (hskip : Skips t.length k k') :
    Agrees t.length (urlLength k t) (urlLength k' (t ++ r)) := by
  induction t generalizing k k' with
  | nil => exact agrees_nil
  | cons c t ih =>
      cases k with
      | succ k =>
          obtain ⟨k', rfl⟩ := hskip.exists_succ
          exact (ih hskip.of_succ).succ
      | zero =>
          have hbad := (readsForward_badUrlLength t r).succ
          rw [hskip.eq_zero, List.cons_append, urlLength_cons_zero, urlLength_cons_zero]
          split
          · exact (readsForward_urlEndLength t r).succ
          · split
            · exact agrees_one t
            · split
              · exact hbad
              · split
                · cases t with
                  | nil =>
                      refine Or.inr ⟨rfl, ?_⟩
                      split <;> exact Nat.le_add_right 1 _
                  | cons d t =>
                      have hstarts : startsNewline (d :: t ++ r) = startsNewline (d :: t) := rfl
                      rw [hstarts]
                      split
                      · exact hbad
                      · exact (ih (escapeLength_skips (d :: t) r)).succ
                · exact (ih skips_refl).succ

theorem readsForward_urlLength : ReadsForward (urlLength 0) :=
  fun t r => urlLength_forward t r skips_refl

/-- Whether a text ends with a backslash and a newline stands behind it. -/
def Edge (t r : List Char) : Prop :=
  t.getLast? = some '\\' ∧ startsNewline r = true

/-- Like `Agrees`, but a backslash at the end may be taken only as long as no newline follows. -/
def AgreesToEdge (t r : List Char) (m n : Nat) : Prop :=
  Agrees t.length m n ∨ Edge t r ∧ m = t.length ∧ n + 1 = t.length

theorem Edge.cons (h : Edge t r) (c : Char) : Edge (c :: t) r := by
  obtain ⟨d, u, rfl⟩ : ∃ d u, t = d :: u := by
    cases t with
    | nil => cases h.1
    | cons d u => exact ⟨d, u, rfl⟩
  exact ⟨by rw [List.getLast?_cons_cons, h.1], h.2⟩

theorem AgreesToEdge.cons {m n : Nat} (h : AgreesToEdge t r m n) (c : Char) :
    AgreesToEdge (c :: t) r (1 + m) (1 + n) := by
  rcases h with h | ⟨hedge, hm, hn⟩
  · exact Or.inl h.succ
  · exact Or.inr ⟨hedge.cons c, by rw [hm, List.length_cons, Nat.add_comm],
      by rw [List.length_cons, ← hn, Nat.add_comm 1]⟩

theorem AgreesToEdge.le {m n : Nat} (h : AgreesToEdge t r m n) : m ≤ t.length := by
  rcases h with h | ⟨-, hall, -⟩
  · exact h.le
  · exact Nat.le_of_eq hall

theorem nameLength_cons_zero (c : Char) (cs : List Char) :
    nameLength 0 (c :: cs) =
      if isNameChar c then 1 + nameLength 0 cs
      else if c = '\\' ∧ startsNewline cs = false then 1 + nameLength (escapeLength cs) cs
      else 0 := by
  rw [nameLength]

theorem nameLength_forward {k k' : Nat} (t r : List Char) (hskip : Skips t.length k k') :
    AgreesToEdge t r (nameLength k t) (nameLength k' (t ++ r)) := by
  induction t generalizing k k' with
  | nil => exact Or.inl agrees_nil
  | cons c t ih =>
      cases k with
      | succ k =>
          obtain ⟨k', rfl⟩ := hskip.exists_succ
          exact (ih hskip.of_succ).cons c
      | zero =>
          rw [hskip.eq_zero, List.cons_append, nameLength_cons_zero, nameLength_cons_zero]
          by_cases hname : isNameChar c = true
          · rw [if_pos hname, if_pos hname]
            exact (ih skips_refl).cons c
          rw [if_neg hname, if_neg hname]
          by_cases hbackslash : c = '\\'
          · subst hbackslash
            cases t with
            | cons d t =>
                have hstarts : startsNewline (d :: t ++ r) = startsNewline (d :: t) := rfl
                rw [hstarts]
                split
                · exact (ih (escapeLength_skips (d :: t) r)).cons _
                · exact Or.inl (agrees_of_lt (Nat.succ_pos _))
            | nil =>
                rw [if_pos ⟨rfl, rfl⟩, List.nil_append]
                cases hnewline : startsNewline r with
                | true => exact Or.inr ⟨⟨rfl, hnewline⟩, rfl, by simp⟩
                | false =>
                    rw [if_pos ⟨rfl, rfl⟩]
                    exact (ih (skips_nil _ _)).cons _
          · rw [if_neg fun h => hbackslash h.1, if_neg fun h => hbackslash h.1]
            exact Or.inl (agrees_of_lt (Nat.succ_pos _))

theorem nameLength_of_length_le {k : Nat} (h : t.length ≤ k) : nameLength k t = t.length := by
  induction t generalizing k with
  | nil => rfl
  | cons c t ih =>
      cases k with
      | zero => cases h
      | succ k => rw [nameLength, ih (Nat.le_of_succ_le_succ h), List.length_cons, Nat.add_comm]

/-- An escape that ends inside of a text stands for the same character whatever follows. -/
theorem escapeValue_forward (h : escapeLength t < t.length) (r : List Char) :
    escapeValue (t ++ r) = escapeValue t := by
  rcases escapeDigits_forward t r with hdigits | ⟨hall, -⟩
  · cases t with
    | nil => cases h
    | cons c t => simp only [List.cons_append] at hdigits ⊢; simp only [escapeValue, hdigits]
  · unfold escapeLength at h
    simp only [hall] at h
    split at h <;> omega

/-- A name that ends inside of a text is the same whatever follows. -/
theorem nameValue_forward {k : Nat} (h : nameLength k t < t.length) (r : List Char) :
    nameValue k (t ++ r) = nameValue k t := by
  induction t generalizing k with
  | nil => cases h
  | cons c t ih =>
      cases k with
      | succ k =>
          rw [nameLength, List.length_cons] at h
          exact ih (by omega)
      | zero =>
          rw [nameLength_cons_zero, List.length_cons] at h
          simp only [List.cons_append, nameValue]
          split
          · next hname =>
            rw [if_pos hname] at h
            rw [ih (by omega)]
          · next hname =>
            rw [if_neg hname] at h
            by_cases hbackslash : c = '\\' ∧ startsNewline t = false
            · rw [if_pos hbackslash] at h
              have hshort : escapeLength t < t.length := by
                apply Nat.lt_of_not_le
                intro hlong
                rw [nameLength_of_length_le hlong] at h
                omega
              have hescape : escapeLength (t ++ r) = escapeLength t :=
                (escapeLength_skips t r).resolve_right fun hlong => Nat.not_le.2 hshort hlong.1
              have hstarts : startsNewline (t ++ r) = startsNewline t := by
                cases t with
                | nil => cases hshort
                | cons d t => rfl
              rw [hstarts, if_pos hbackslash, if_pos hbackslash, hescape,
                escapeValue_forward hshort, ih (by omega)]
            · have hbackslash' : ¬(c = '\\' ∧ startsNewline (t ++ r) = false) := by
                rintro ⟨rfl, hstarts⟩
                cases t with
                | nil => exact hbackslash ⟨rfl, rfl⟩
                | cons d t => exact hbackslash ⟨rfl, hstarts⟩
              rw [if_neg hbackslash, if_neg hbackslash']

end ScopedCss.Css
