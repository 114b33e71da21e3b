/-
# Small letters

The small form of a character has no ASCII characters that were not there before, except for small
letters: the dotted I has one, and the Kelvin sign is one.  So lowering a text does not put marks
into it.
-/

import ScopedCss.Text.Lowercase

namespace ScopedCss.Text

/-- The small letters of a run of capitals lie above ASCII, and they are characters, but for the
run of the Kelvin sign. -/
theorem capitalRuns_target : ∀ run ∈ capitalRuns, run = (0x212A, 0x212A, 1, -8383) ∨
    128 ≤ (run.1 : Int) + run.2.2.2 ∧ ((run.2.1 : Int) + run.2.2.2 < 0xD800 ∨
      0xE000 ≤ (run.1 : Int) + run.2.2.2 ∧ (run.2.1 : Int) + run.2.2.2 < 0x110000) := by
  decide +kernel

theorem toNat_ofNat_of_isValidChar {n : Nat} (h : n.isValidChar) : (Char.ofNat n).toNat = n := by
  rw [Char.ofNat, dif_pos h]
  rfl

/-- What holds of the first 128 characters holds of every ASCII character. -/
theorem of_ascii {p : Char → Prop} (h : ∀ n < 128, p (Char.ofNat n)) {c : Char}
    (hc : c.toNat < 128) : p c :=
  Char.ofNat_toNat c ▸ h c.toNat hc

theorem toLower_ascii {c : Char} (hc : c.toNat < 128) :
    c.toLower.isLower = true ∨ c.toLower = c :=
  of_ascii (p := fun c => c.toLower.isLower = true ∨ c.toLower = c) (by decide) hc

theorem toNat_toLower_lt {c : Char} (hc : c.toNat < 128) : c.toLower.toNat < 128 :=
  of_ascii (p := fun c => c.toLower.toNat < 128) (by decide) hc

/-- The small letter of a capital in a run is an ASCII letter or above ASCII. -/
theorem isLower_or_le_of_mem_run {run : Nat × Nat × Nat × Int} (hrun : run ∈ capitalRuns) {n : Nat}
    (hfirst : run.1 ≤ n) (hlast : n ≤ run.2.1) :
    (Char.ofNat (n + run.2.2.2).toNat).isLower = true ∨
      128 ≤ (Char.ofNat (n + run.2.2.2).toNat).toNat := by
  rcases capitalRuns_target run hrun with rfl | ⟨hlow, hvalid⟩
  · have hn : n = 0x212A := Nat.le_antisymm hlast hfirst
    subst hn
    exact Or.inl (by decide)
  · have hchar : (n + run.2.2.2).toNat.isValidChar := by
      unfold Nat.isValidChar
      omega
    rw [toNat_ofNat_of_isValidChar hchar]
    exact Or.inr (by omega)

/-- An ASCII character in the small form of a character is a small letter or the character
itself. -/
theorem isLower_or_eq_of_mem_lowerChar {c d : Char} (h : d ∈ lowerChar c) (hd : d.toNat < 128) :
    d.isLower = true ∨ d = c := by
  unfold lowerChar at h
  split at h
  · rw [List.mem_singleton.1 h]
    exact toLower_ascii (by assumption)
  · split at h
    · rw [List.mem_cons, List.mem_singleton] at h
      rcases h with rfl | rfl
      · exact Or.inl (by decide)
      · exact absurd hd (by decide)
    · simp only at h
      split at h
      · next run hfind =>
        have hrange := List.find?_some hfind
        simp only [Bool.and_eq_true, decide_eq_true_eq] at hrange
        have hsmall := isLower_or_le_of_mem_run (List.mem_of_find?_eq_some hfind) hrange.1.1
          hrange.1.2
        rw [← List.mem_singleton.1 h] at hsmall
        exact Or.inl (hsmall.resolve_right (Nat.not_le.2 hd))
      · exact Or.inr (List.mem_singleton.1 h)

end ScopedCss.Text
