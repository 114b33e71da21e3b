/-
# Names of properties

The name of a property is the key in kebab case, and the key can be read back from it: every hyphen
in it stands in front of the small form of a capital (`Declaration.camel_kebab`).  It never begins
with two hyphens, or the key would begin with one, so it is not the name of a custom property.
Hence keys in camel case and keys of custom properties are told by their property names
(`Declaration.keyOf_propertyName`), and no declaration of a style with such keys overrides another
one of it (`Style.nodup_propertyNames`).

Other keys may share their name: a hyphen in the key cannot be told from one that was put in, and
beyond ASCII the Kelvin sign has the small form of the letter K.
-/

import Mathlib
import ScopedCss.Proofs.Style.Order
import ScopedCss.Proofs.Style.RoundTrip

namespace ScopedCss

namespace Declaration

/-- A key in camel case: ASCII characters, and no hyphen among them. -/
def IsCamel (key : List Char) : Prop :=
  ∀ c ∈ key, c.toNat < 128 ∧ c ≠ '-'

/-- A key of a custom property, which begins with two hyphens. -/
def IsCustom (key : List Char) : Prop :=
  ['-', '-'] <+: key

-- A Boolean test, since the instance for a bounded quantifier is stuck on the characters of a text.
instance (key : List Char) : Decidable (IsCamel key) :=
  decidable_of_iff (key.all fun c => decide (c.toNat < 128 ∧ c ≠ '-')) (by simp [IsCamel])

instance (key : List Char) : Decidable (IsCustom key) :=
  inferInstanceAs (Decidable (['-', '-'] <+: key))

/-- Replace every hyphen in front of a small letter, and the letter, by the capital. -/
def camel : List Char → List Char
  | c :: d :: rest =>
      if c = '-' ∧ d.isLower then d.toUpper :: camel rest else c :: camel (d :: rest)
  | rest => rest

/-- The key that a property name was made of.  It is the name itself if the property is a custom
one. -/
def keyOf (name : List Char) : List Char :=
  if ['-', '-'].isPrefixOf name then name else camel name

theorem camel_hyphen_cons {d : Char} (hd : d.isLower = true) (rest : List Char) :
    camel ('-' :: d :: rest) = d.toUpper :: camel rest := by
  rw [camel, if_pos ⟨rfl, hd⟩]

theorem camel_cons_of_ne {c : Char} (hc : c ≠ '-') (rest : List Char) :
    camel (c :: rest) = c :: camel rest := by
  cases rest with
  | nil => rfl
  | cons d rest => rw [camel, if_neg fun h => hc h.1]

theorem IsCamel.not_isCustom {key : List Char} (h : IsCamel key) : ¬IsCustom key :=
  fun hcustom => (h '-' (hcustom.subset List.mem_cons_self)).2 rfl

theorem propertyName_of_isCustom {key : List Char} (h : IsCustom key) : propertyName key = key := by
  rw [propertyName, if_pos (List.isPrefixOf_iff_prefix.2 h)]

theorem propertyName_of_not_isCustom {key : List Char} (h : ¬IsCustom key) :
    propertyName key = kebab key := by
  rw [propertyName, if_neg fun hprefix => h (List.isPrefixOf_iff_prefix.1 hprefix)]

section

variable {c : Char}

theorem kebabChar_of_isUpper (hascii : c.toNat < 128) (hupper : c.isUpper = true) :
    kebabChar c = ['-', c.toLower] := by
  rw [kebabChar, if_pos hupper, Text.lowerChar_of_ascii hascii]

theorem kebabChar_of_not_isUpper (hascii : c.toNat < 128) (hupper : c.isUpper = false) :
    kebabChar c = [c] := by
  have hlower : c.toLower = c := Char.toLower_eq_of_not_isUpper (by simp [hupper])
  rw [kebabChar, if_neg (by simp [hupper]), Text.lowerChar_of_ascii hascii, hlower]

theorem isLower_toLower_of_isUpper (hupper : c.isUpper = true) : c.toLower.isLower = true := by
  rw [Char.isLower_toLower_eq_isAlpha, Char.isAlpha, hupper, Bool.true_or]

theorem toUpper_toLower_of_isUpper (hupper : c.isUpper = true) : c.toLower.toUpper = c := by
  rw [Char.toUpper_toLower_eq_toUpper,
    Char.toUpper_eq_of_not_isLower (Char.not_isLower_of_isUpper hupper)]

/-- What one character was written as is read as the character, whatever follows. -/
theorem camel_kebabChar_append (hascii : c.toNat < 128) (hhyphen : c ≠ '-') (rest : List Char) :
    camel (kebabChar c ++ rest) = c :: camel rest := by
  cases hupper : c.isUpper with
  | true =>
      rw [kebabChar_of_isUpper hascii hupper, List.cons_append, List.singleton_append,
        camel_hyphen_cons (isLower_toLower_of_isUpper hupper), toUpper_toLower_of_isUpper hupper]
  | false =>
      rw [kebabChar_of_not_isUpper hascii hupper, List.singleton_append, camel_cons_of_ne hhyphen]

theorem small_of_mem_kebabChar {d : Char} (hascii : c.toNat < 128) (hd : d ∈ kebabChar c) :
    d.toNat < 128 ∧ d.isUpper = false := by
  cases hupper : c.isUpper with
  | true =>
      rw [kebabChar_of_isUpper hascii hupper, List.mem_cons, List.mem_singleton] at hd
      rcases hd with rfl | rfl
      · decide
      · exact ⟨Text.toNat_toLower_lt hascii, Char.isUpper_toLower_eq_false c⟩
  | false =>
      rw [kebabChar_of_not_isUpper hascii hupper, List.mem_singleton] at hd
      exact hd ▸ ⟨hascii, hupper⟩

end

/-- A key in camel case is read back from its kebab case. -/
theorem camel_kebab {key : List Char} (h : IsCamel key) : camel (kebab key) = key := by
  induction key with
  | nil => rfl
  | cons c key ih =>
      obtain ⟨⟨hascii, hhyphen⟩, hkey⟩ := List.forall_mem_cons.1 h
      rw [kebab_cons, camel_kebabChar_append hascii hhyphen, ih hkey]

theorem small_of_mem_kebab {key : List Char} (h : IsCamel key) :
    ∀ d ∈ kebab key, d.toNat < 128 ∧ d.isUpper = false := by
  intro d hd
  obtain ⟨c, hc, hmem⟩ := List.mem_flatMap.1 hd
  exact small_of_mem_kebabChar (h c hc).1 hmem

/-- A name without capitals is in kebab case. -/
theorem kebab_eq_self {name : List Char} (h : ∀ d ∈ name, d.toNat < 128 ∧ d.isUpper = false) :
    kebab name = name := by
  induction name with
  | nil => rfl
  | cons c name ih =>
      obtain ⟨⟨hascii, hupper⟩, hname⟩ := List.forall_mem_cons.1 h
      rw [kebab_cons, kebabChar_of_not_isUpper hascii hupper, ih hname, List.singleton_append]

/-- A hyphen in front of another one is read as a hyphen, which no key in camel case has. -/
theorem IsCamel.not_isCustom_kebab {key : List Char} (h : IsCamel key) :
    ¬IsCustom (kebab key) := by
  rintro ⟨rest, hrest⟩
  -- The second hyphen is no small letter, so the first one is read as it stands.
  have hkey : key = '-' :: camel ('-' :: rest) := by
    rw [← camel_kebab h, ← hrest]
    rfl
  exact (h '-' (hkey ▸ List.mem_cons_self)).2 rfl

/-- A key in camel case, or of a custom property, is told by its property name. -/
theorem keyOf_propertyName {key : List Char} (h : IsCamel key ∨ IsCustom key) :
    keyOf (propertyName key) = key := by
  rcases h with hcamel | hcustom
  · have hname : ¬['-', '-'].isPrefixOf (kebab key) = true :=
      fun hprefix => hcamel.not_isCustom_kebab (List.isPrefixOf_iff_prefix.1 hprefix)
    rw [propertyName_of_not_isCustom hcamel.not_isCustom, keyOf, if_neg hname, camel_kebab hcamel]
  · rw [propertyName_of_isCustom hcustom, keyOf, if_pos (List.isPrefixOf_iff_prefix.2 hcustom)]

/-- Keys that share their name: one has a hyphen of its own, the other one is the Kelvin sign. -/
example : propertyName "foo-bar".toList = propertyName "fooBar".toList ∧
    propertyName "k".toList = propertyName "\u212a".toList := by
  decide

/-- The kebab case of a key in camel case has no capitals, does not begin with two hyphens, is
undone by reading it, and is its own kebab case.  So keys in camel case and keys of custom
properties have different property names if they are different. -/
theorem camelKeys_stay_distinct :
    (∀ key, IsCamel key →
      (∀ d ∈ kebab key, d.toNat < 128 ∧ d.isUpper = false) ∧ ¬IsCustom (kebab key) ∧
        camel (kebab key) = key ∧ kebab (kebab key) = kebab key) ∧
      Set.InjOn propertyName ({key | IsCamel key} ∪ {key | IsCustom key}) := by
  constructor
  · intro key h
    have hsmall := small_of_mem_kebab h
    exact ⟨hsmall, h.not_isCustom_kebab, camel_kebab h, kebab_eq_self hsmall⟩
  · have htold : Set.LeftInvOn keyOf propertyName ({key | IsCamel key} ∪ {key | IsCustom key}) :=
      fun _ h => keyOf_propertyName h
    exact htold.injOn

/-- A vendor prefix and a run of capitals, and the custom property that only lacks a hyphen. -/
theorem camelKeys_stay_distinct_prefixed :
    let key := "WebkitURL2".toList
    let custom := "--webkit-u-r-l2".toList
    IsCamel key ∧ IsCustom custom ∧ kebab key = "-webkit-u-r-l2".toList ∧
      (∀ d ∈ kebab key, d.toNat < 128 ∧ d.isUpper = false) ∧ ¬IsCustom (kebab key) ∧
      camel (kebab key) = key ∧ kebab (kebab key) = kebab key ∧
      propertyName key ≠ propertyName custom := by
  have hwritten : kebab "WebkitURL2".toList = "-webkit-u-r-l2".toList := by decide
  intro key custom
  have hkey : IsCamel key := by decide
  have hcustom : IsCustom custom := by decide
  have hne : key ≠ custom := by decide
  obtain ⟨hkebab, hinj⟩ := camelKeys_stay_distinct
  obtain ⟨hsmall, hname, hread, hagain⟩ := hkebab key hkey
  have hnames : propertyName key ≠ propertyName custom :=
    fun heq => hne (hinj (Or.inl hkey) (Or.inr hcustom) heq)
  exact ⟨hkey, hcustom, hwritten, hsmall, hname, hread, hagain, hnames⟩

end Declaration

namespace Style

theorem keys_properties_sublist (style : Style) :
    (style.properties.map Prod.fst).Sublist style.keys := by
  induction style with
  | empty => exact .slnil
  | property key value rest ih => exact ih.cons_cons key
  | block key body rest _ ih => exact ih.cons key

/-- No two declarations of a style have the same property name, if its keys are in camel case or
those of custom properties, and none is repeated. -/
theorem nodup_propertyNames {style : Style} (h : style.DistinctKeys)
    (hkeys : ∀ entry ∈ style.properties,
      Declaration.IsCamel entry.1.toList ∨ Declaration.IsCustom entry.1.toList) :
    (style.properties.map fun entry => Declaration.propertyName entry.1.toList).Nodup := by
  have hnodup : (style.properties.map Prod.fst).Nodup :=
    (keys_properties_sublist style).nodup (nodup_keys h)
  have htold : ∀ key ∈ style.properties.map Prod.fst,
      Declaration.keyOf (Declaration.propertyName key.toList) = key.toList := by
    intro key hkey
    obtain ⟨entry, hentry, rfl⟩ := List.mem_map.1 hkey
    exact Declaration.keyOf_propertyName (hkeys entry hentry)
  have hnames : ((style.properties.map Prod.fst).map fun key =>
      Declaration.propertyName key.toList).Nodup := by
    refine hnodup.map_on fun key hkey other hother heq => String.toList_inj.1 ?_
    rw [← htold key hkey, ← htold other hother, heq]
  rwa [List.map_map] at hnames

end Style

end ScopedCss
