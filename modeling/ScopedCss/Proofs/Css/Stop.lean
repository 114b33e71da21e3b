/-
# Texts before a stop

White space and a closing brace are the stops: neither belongs to a name or a number, and neither
begins anything that another lexeme would look for.  What a scanner finds in a text is therefore the
same whether a stop or nothing stands behind the text.  Two things are left out here.  A backslash
escapes a stop that follows it at once, and whether it does depends on the stop: before a newline it
escapes nothing.
-/

import ScopedCss.Proofs.Css.Scan

namespace ScopedCss.Css

/-- White space or a closing brace. -/
def isStop (c : Char) : Bool :=
  isSpace c || c == '\x7d'

/-- Whether a text is empty or begins with a stop. -/
def Stops (r : List Char) : Prop :=
  ∀ c ∈ r.head?, isStop c = true

theorem stops_nil : Stops [] :=
  fun _ hc => nomatch hc

theorem stops_brace (r : List Char) : Stops ('\x7d' :: r) := by
  rintro c ⟨⟩
  rfl

theorem stops_of_forall {r : List Char} (h : ∀ c ∈ r, isStop c = true) : Stops r :=
  fun c hc => h c (List.mem_of_mem_head? hc)

/-- A class of characters has no stop in it if it has none of the six. -/
theorem eq_false_of_isStop {p : Char → Bool} (hp : [' ', '\t', '\n', '\r', '\x0c', '\x7d'].all
    fun c => !p c) {c : Char} (h : isStop c = true) : p c = false := by
  simp only [List.all_cons, List.all_nil, Bool.and_true, Bool.and_eq_true, Bool.not_eq_true'] at hp
  simp only [isStop, isSpace, isNewline, Bool.or_eq_true, beq_iff_eq] at h
  rcases h with ((rfl | rfl) | (rfl | rfl) | rfl) | rfl
  · exact hp.1
  · exact hp.2.1
  · exact hp.2.2.1
  · exact hp.2.2.2.1
  · exact hp.2.2.2.2.1
  · exact hp.2.2.2.2.2

theorem ne_of_isStop {c d : Char} (hd : isStop d = false) (h : isStop c = true) : c ≠ d := by
  rintro rfl
  cases hd.symm.trans h

section Stops

variable {r : List Char}

theorem takeWhile_append_stop {p : Char → Bool} (hr : ∀ c ∈ r.head?, p c = false)
    (t : List Char) : (t ++ r).takeWhile p = t.takeWhile p := by
  induction t with
  | nil =>
      cases r with
      | nil => rfl
      | cons c r => simp [hr c rfl]
  | cons c t ih => simp only [List.cons_append, List.takeWhile_cons, ih]

theorem digitRun_append (hr : Stops r) (t : List Char) : digitRun (t ++ r) = digitRun t := by
  have hdigit (c : Char) (hc : c ∈ r.head?) : c.isDigit = false :=
    eq_false_of_isStop (by decide) (hr c hc)
  rw [digitRun, takeWhile_append_stop hdigit, digitRun]

theorem startsDigit_append (hr : Stops r) (t : List Char) :
    startsDigit (t ++ r) = startsDigit t := by
  cases t with
  | cons c t => rfl
  | nil =>
      cases r with
      | nil => rfl
      | cons c r => exact eq_false_of_isStop (p := Char.isDigit) (by decide) (hr c rfl)

theorem startsUnsigned_append (hr : Stops r) (t : List Char) :
    startsUnsigned (t ++ r) = startsUnsigned t := by
  have hother {c : Char} (hpoint : c ≠ '.') (u : List Char) :
      startsUnsigned (c :: u) = c.isDigit := by
    rw [startsUnsigned, startsDigit]
    simp [hpoint]
  cases t with
  | cons c t =>
      by_cases hpoint : c = '.'
      · subst hpoint
        exact startsDigit_append hr t
      · rw [List.cons_append, hother hpoint, hother hpoint]
  | nil =>
      cases r with
      | nil => rfl
      | cons c r =>
          have hdigit : c.isDigit = false := eq_false_of_isStop (by decide) (hr c rfl)
          rw [List.nil_append, hother (ne_of_isStop (by decide) (hr c rfl)), hdigit]
          rfl

theorem escapeDigits_append (hr : Stops r) (t : List Char) :
    escapeDigits (t ++ r) = escapeDigits t := by
  have hhex (c : Char) (hc : c ∈ (r.take (6 - t.length)).head?) : isHexDigit c = false := by
    have hhead : c ∈ r.head? := by
      cases r with
      | nil => simp at hc
      | cons d r =>
          rw [List.head?_take] at hc
          split at hc
          · cases hc
          · exact hc
    exact eq_false_of_isStop (by decide) (hr c hhead)
  rw [escapeDigits, escapeDigits, List.take_append, takeWhile_append_stop hhex]

theorem fractionLength_append (hr : Stops r) (t : List Char) :
    fractionLength (t ++ r) = fractionLength t := by
  have hother {c : Char} (hpoint : c ≠ '.') (u : List Char) : fractionLength (c :: u) = 0 := by
    rw [fractionLength]
    simp [hpoint]
  cases t with
  | cons c t =>
      by_cases hpoint : c = '.'
      · subst hpoint
        simp only [List.cons_append, fractionLength, startsDigit_append hr, digitRun_append hr]
      · rw [List.cons_append, hother hpoint, hother hpoint]
  | nil =>
      cases r with
      | nil => rfl
      | cons c r => exact hother (ne_of_isStop (by decide) (hr c rfl)) r

theorem exponentLength_append (hr : Stops r) (t : List Char) :
    exponentLength (t ++ r) = exponentLength t := by
  match t with
  | [] =>
      cases r with
      | nil => rfl
      | cons c r =>
          have hletter : ¬(c = 'e' ∨ c = 'E') :=
            not_or.2 ⟨ne_of_isStop (by decide) (hr c rfl), ne_of_isStop (by decide) (hr c rfl)⟩
          simp [exponentLength, hletter]
  | [e] =>
      cases r with
      | nil => rfl
      | cons c r =>
          have hdigit : c.isDigit = false := eq_false_of_isStop (by decide) (hr c rfl)
          have hsign : ¬(c = '+' ∨ c = '-') :=
            not_or.2 ⟨ne_of_isStop (by decide) (hr c rfl), ne_of_isStop (by decide) (hr c rfl)⟩
          simp [exponentLength, hdigit, hsign]
  | e :: d :: t =>
      have hdigits := digitRun_append hr (d :: t)
      rw [List.cons_append] at hdigits
      simp only [List.cons_append, exponentLength, hdigits, startsDigit_append hr,
        digitRun_append hr]

/-- The length of the number at the front of a text, without its unit. -/
def numeralLength (cs : List Char) : Nat :=
  let sign := match cs with
    | '+' :: _ => 1
    | '-' :: _ => 1
    | _ => 0
  let whole := sign + digitRun (cs.drop sign)
  let fraction := whole + fractionLength (cs.drop whole)
  fraction + exponentLength (cs.drop fraction)

theorem numericLength_eq (cs : List Char) :
    numericLength cs = numeralLength cs + unitLength (cs.drop (numeralLength cs)) :=
  rfl

theorem spaceRun_le (t : List Char) : spaceRun t ≤ t.length :=
  (List.takeWhile_sublist isSpace).length_le

theorem digitRun_le (t : List Char) : digitRun t ≤ t.length :=
  (List.takeWhile_sublist Char.isDigit).length_le

theorem fractionLength_le (t : List Char) : fractionLength t ≤ t.length := by
  unfold fractionLength
  split
  · have hdigits := digitRun_le (by assumption)
    split <;> simp only [List.length_cons] <;> omega
  · omega

theorem exponentLength_le (t : List Char) : exponentLength t ≤ t.length := by
  match t with
  | [] => simp [exponentLength]
  | [c] => simp [exponentLength]
  | c :: d :: t =>
      have hhead := digitRun_le (d :: t)
      have htail := digitRun_le t
      simp only [exponentLength, List.length_cons] at *
      repeat' split
      all_goals omega

theorem sign_append (hr : Stops r) (t : List Char) :
    (match t ++ r with | '+' :: _ => 1 | '-' :: _ => 1 | _ => 0) =
      (match t with | '+' :: _ => 1 | '-' :: _ => 1 | _ => 0) := by
  have hother {c : Char} (hc : ¬(c = '+' ∨ c = '-')) (u : List Char) :
      (match c :: u with | '+' :: _ => 1 | '-' :: _ => 1 | _ => 0) = 0 := by
    split <;> simp_all
  cases t with
  | cons c t =>
      by_cases hc : c = '+' ∨ c = '-'
      · rcases hc with rfl | rfl <;> rfl
      · rw [List.cons_append, hother hc, hother hc]
  | nil =>
      cases r with
      | nil => rfl
      | cons c r =>
          exact hother (not_or.2 ⟨ne_of_isStop (by decide) (hr c rfl),
            ne_of_isStop (by decide) (hr c rfl)⟩) r

theorem sign_le (t : List Char) :
    (match t with | '+' :: _ => 1 | '-' :: _ => 1 | _ => 0) ≤ t.length := by
  split <;> simp

/-- A number ends before a stop. -/
theorem numeralLength_append (hr : Stops r) (t : List Char) :
    numeralLength (t ++ r) = numeralLength t ∧ numeralLength t ≤ t.length := by
  have hsign := sign_le t
  simp only [numeralLength, sign_append hr]
  generalize (match t with | '+' :: _ => 1 | '-' :: _ => 1 | _ => 0) = sign at hsign ⊢
  have hwhole : sign + digitRun (t.drop sign) ≤ t.length := by
    have h := digitRun_le (t.drop sign)
    rw [List.length_drop] at h
    omega
  rw [List.drop_append_of_le_length hsign, digitRun_append hr]
  generalize sign + digitRun (t.drop sign) = whole at hwhole ⊢
  have hfraction : whole + fractionLength (t.drop whole) ≤ t.length := by
    have h := fractionLength_le (t.drop whole)
    rw [List.length_drop] at h
    omega
  rw [List.drop_append_of_le_length hwhole, fractionLength_append hr]
  generalize whole + fractionLength (t.drop whole) = fraction at hfraction ⊢
  have hexponent := exponentLength_le (t.drop fraction)
  rw [List.length_drop] at hexponent
  rw [List.drop_append_of_le_length hfraction, exponentLength_append hr]
  exact ⟨rfl, by omega⟩

/-- A fixed mark is not completed by a stop. -/
theorem isPrefixOf_append {p : List Char} (hp : p.any isStop = false) (hr : Stops r)
    (t : List Char) : p.isPrefixOf (t ++ r) = p.isPrefixOf t := by
  induction p generalizing t with
  | nil => simp
  | cons d p ih =>
      obtain ⟨hd, hrest⟩ : isStop d = false ∧ p.any isStop = false := by
        rwa [List.any_cons, Bool.or_eq_false_iff] at hp
      cases t with
      | cons c t => simp [List.isPrefixOf, ih hrest]
      | nil =>
          cases r with
          | nil => rfl
          | cons c r =>
              have hne : d ≠ c := (ne_of_isStop hd (hr c rfl)).symm
              simp [List.isPrefixOf, hne]

theorem head?_append_stop (hr : Stops r) {d : Char} (hd : isStop d = false) (t : List Char) :
    (t ++ r).head? = some d ↔ t.head? = some d := by
  cases t with
  | cons c t => rfl
  | nil =>
      cases r with
      | nil => rfl
      | cons c r => simp [ne_of_isStop hd (hr c rfl)]

theorem startsName_cons {c : Char} (hbackslash : c ≠ '\\') (hhyphen : c ≠ '-') (u : List Char) :
    startsName (c :: u) = isNameStart c := by
  rw [startsName]
  all_goals simp [hbackslash, hhyphen]

/-- A backslash at the end of a text begins a name, and before a newline it does not. -/
theorem startsName_append (hr : Stops r) {t : List Char}
    (hedge : t = ['\\'] → startsNewline r = false) : startsName (t ++ r) = startsName t := by
  cases t with
  | nil =>
      cases r with
      | nil => rfl
      | cons c r =>
          rw [List.nil_append, startsName_cons (ne_of_isStop (by decide) (hr c rfl))
            (ne_of_isStop (by decide) (hr c rfl))]
          exact eq_false_of_isStop (by decide) (hr c rfl)
  | cons c t =>
      by_cases hbackslash : c = '\\'
      · subst hbackslash
        cases t with
        | nil => exact congrArg not (hedge rfl)
        | cons d t => rfl
      · by_cases hhyphen : c = '-'
        · subst hhyphen
          cases t with
          | cons d t => rfl
          | nil =>
              cases r with
              | nil => rfl
              | cons d r =>
                  have hstart : (isNameStart d || d == '-' || d == '\\') = false :=
                    eq_false_of_isStop (p := fun d => isNameStart d || d == '-' || d == '\\')
                      (by decide) (hr d rfl)
                  exact hstart
        · rw [List.cons_append, startsName_cons hbackslash hhyphen,
            startsName_cons hbackslash hhyphen]

end Stops

end ScopedCss.Css
