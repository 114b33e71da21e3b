/-
# Styles read back

The JSON form of a style is read back as the style, if its blocks are nested at most 127 deep, and
is malformed if they are nested deeper (`Style.parse_json`).  Numbers must be integers of magnitude
below `10 ^ 15`, since others are rounded in steps when they are read, and no block may repeat a
key, since the second value would be set in the place of the first.

The form has the lexemes of a tree (`Style.lex_json`), of which `Style.decode` makes the style with
every number rounded from its integer (`Style.reread`).
-/

import ScopedCss.Proofs.Json.Lexeme
import ScopedCss.Proofs.Style.Decode
import ScopedCss.Proofs.Style.Identity

namespace ScopedCss

/-- Whether a scalar is a text or an integer of magnitude below `10 ^ 15`. -/
def Scalar.isIntegral : Scalar → Bool
  | .text _ => true
  | .number (.finite x) => x.smallInteger?.isSome
  | .number _ => false

/-- The JSON atom that a scalar is written as. -/
def Scalar.atom : Scalar → Json.Atom
  | .text s => .text s
  | .number (.finite x) =>
    match x.smallInteger? with
    | some n => .numeral (.integer n)
    | none => .numeral (.real (.finite x))
  | .number _ => .null

namespace Style

/-- Whether all numbers of a style are integers of magnitude below `10 ^ 15`. -/
def isIntegral : Style → Bool
  | .empty => true
  | .property _ value rest => value.isIntegral && isIntegral rest
  | .block _ body rest => isIntegral body && isIntegral rest

/-- No block of a style, nor the style itself, repeats a key. -/
def DistinctKeys : Style → Prop
  | .empty => True
  | .property key _ rest => key ∉ rest.keys ∧ DistinctKeys rest
  | .block key body rest => key ∉ rest.keys ∧ DistinctKeys body ∧ DistinctKeys rest

instance decidableDistinctKeys : (style : Style) → Decidable style.DistinctKeys
  | .empty => inferInstanceAs (Decidable True)
  | .property key _ rest =>
    have := decidableDistinctKeys rest
    inferInstanceAs (Decidable (key ∉ rest.keys ∧ rest.DistinctKeys))
  | .block key body rest =>
    have := decidableDistinctKeys body
    have := decidableDistinctKeys rest
    inferInstanceAs (Decidable (key ∉ rest.keys ∧ body.DistinctKeys ∧ rest.DistinctKeys))

/-- How many blocks are inside of each other, the style itself included. -/
def nesting : Style → Nat
  | .empty => 1
  | .property _ _ rest => nesting rest
  | .block _ body rest => max (nesting body + 1) (nesting rest)

/-- The members of the JSON object that a style is written as. -/
def members : Style → List (String × Json)
  | .empty => []
  | .property key value rest => (key, .atom value.atom) :: members rest
  | .block key body rest => (key, .object (members body)) :: members rest

/-- A style with the scalars that are read for those it has. -/
def reread : Style → Style
  | .empty => .empty
  | .property key value rest => .property key (.ofAtom value.atom) (reread rest)
  | .block key body rest => .block key (reread body) (reread rest)

end Style

namespace Scalar

theorem exists_of_isIntegral {v : Scalar} (h : v.isIntegral = true) :
    (∃ s, v = .text s) ∨ ∃ x n, v = .number (.finite x) ∧ x.smallInteger? = some n := by
  cases v with
  | text s => exact .inl ⟨s, rfl⟩
  | number n =>
      cases n with
      | finite x =>
          obtain ⟨n, hn⟩ := Option.isSome_iff_exists.1 h
          exact .inr ⟨x, n, rfl, hn⟩
      | nan => cases h
      | infinite negative => cases h

/-- The JSON form of an integral scalar has the lexeme of its atom, where nothing follows that could
be in a number. -/
theorem lex_json {v : Scalar} (hv : v.isIntegral = true) {r : List Char}
    (hr : ∀ c ∈ r.head?, Number.isNumberChar c = false) :
    Json.lex (v.json ++ r) = .atom v.atom :: Json.lex r := by
  rcases exists_of_isIntegral hv with ⟨s, rfl⟩ | ⟨x, n, rfl, hn⟩
  · rw [json, Json.lex_quote, String.ofList_toList]
    rfl
  · have hjson : (Scalar.number (.finite x)).json = Numeral.signedDecimal n := by
      simp only [json, Number.json, hn]
    have hatom : (Scalar.number (.finite x)).atom = .numeral (.integer n) := by
      simp only [atom, hn]
    rw [hjson, hatom, Json.lex_signedDecimal (Number.Finite.smallInteger?_eq_some hn).1.small hr]

/-- An integral scalar is read back as one that is equal to it and has the same form. -/
theorem same_ofAtom {v : Scalar} (hv : v.isIntegral = true) :
    v.same (.ofAtom v.atom) = true ∧ v.SameForm (.ofAtom v.atom) := by
  rcases exists_of_isIntegral hv with ⟨s, rfl⟩ | ⟨x, n, rfl, hn⟩
  · exact ⟨beq_self_eq_true s, rfl⟩
  · have hatom : (Scalar.number (.finite x)).atom = .numeral (.integer n) := by
      simp only [atom, hn]
    have hread : ofAtom (.numeral (.integer n)) = .number (Number.ofInt n) := rfl
    rw [hatom, hread, same, SameForm]
    exact ⟨Number.Finite.same_ofInt hn, (Number.Finite.text_ofInt hn).symm⟩

theorem isFinite_ofAtom {v : Scalar} (hv : v.isIntegral = true) :
    v.isFinite = true ∧ (ofAtom v.atom).isFinite = true := by
  rcases exists_of_isIntegral hv with ⟨s, rfl⟩ | ⟨x, n, rfl, hn⟩
  · exact ⟨rfl, rfl⟩
  · have hread : ofAtom (Scalar.number (.finite x)).atom = .number (Number.ofInt n) := by
      simp only [atom, hn]
      rfl
    rw [hread, Number.ofInt_eq (Number.Finite.smallInteger?_eq_some hn).1.small]
    exact ⟨rfl, rfl⟩

end Scalar

namespace Style

open Json (Keyed)

theorem lex_entryText (first : Bool) (key : String) (r : List Char) :
    Json.lex (entryText first key r) =
      (if first then [] else [.comma]) ++ .atom (.text key) :: .colon :: Json.lex r := by
  have hentry : Json.lex (Json.quote key.toList ++ ':' :: r) =
      .atom (.text key) :: .colon :: Json.lex r := by
    rw [Json.lex_quote, String.ofList_toList, Json.lex_colon]
  cases first with
  | true => exact hentry
  | false => exact (Json.lex_comma _).trans (congrArg (List.cons Json.Lexeme.comma) hentry)

/-- Whatever follows, the JSON form of a style has the lexemes of its members. -/
theorem lex_jsonFrom {style : Style} (h : style.isIntegral = true) (first : Bool) (r : List Char) :
    Json.lex (jsonFrom first style ++ r) =
      Json.memberLexemes first style.members ++ Json.lex r := by
  induction style generalizing first r with
  | empty => exact Json.lex_closeObject r
  | property key value rest ih =>
      rw [isIntegral, Bool.and_eq_true] at h
      rw [jsonFrom_property_append, lex_entryText,
        Scalar.lex_json h.1 (not_isNumberChar_of_mem_head?_jsonFrom rest r), ih h.2]
      simp [members, Json.memberLexemes, Json.lexemes]
  | block key body rest ihbody ihrest =>
      rw [isIntegral, Bool.and_eq_true] at h
      rw [jsonFrom_block_append, lex_entryText, Json.lex_openObject, ihbody h.1, ihrest h.2]
      simp [members, Json.memberLexemes, Json.lexemes]

/-- The JSON form of a style has the lexemes of the object with its members. -/
theorem lex_json {style : Style} (h : style.isIntegral = true) :
    Json.lex style.json.toList = Json.lexemes (.object style.members) := by
  have hmembers := lex_jsonFrom h true []
  rw [List.append_nil, Json.lex, List.append_nil] at hmembers
  rw [json, String.toList_ofList, Json.lex_openObject, hmembers, Json.lexemes]

/-- A style nests as many blocks as its tree nests objects. -/
theorem nesting_members (style : Style) : (Json.object style.members).nesting = style.nesting := by
  induction style with
  | empty => rfl
  | property key value rest ih =>
      rw [nesting, ← ih, members]
      simp [Json.nesting, Json.nestingMembers]
  | block key body rest ihbody ihrest =>
      rw [nesting, ← ihbody, ← ihrest, members]
      simp only [Json.nesting, Json.nestingMembers]
      omega

theorem keys_reread (style : Style) : style.reread.keys = style.keys := by
  induction style with
  | empty => rfl
  | property key value rest ih => exact congrArg (List.cons key) ih
  | block key body rest _ ih => exact congrArg (List.cons key) ih

theorem nodup_keys {style : Style} (h : style.DistinctKeys) : style.keys.Nodup := by
  induction style with
  | empty => exact List.nodup_nil
  | property key value rest ih => exact List.nodup_cons.2 ⟨h.1, ih h.2⟩
  | block key body rest _ ih => exact List.nodup_cons.2 ⟨h.1, ih h.2.2⟩

theorem forall₂_members {style : Style} (h : style.DistinctKeys) :
    List.Forall₂ (Keyed fun x y => decodeValue x = .ok y) style.members style.reread.entries := by
  induction style with
  | empty => exact .nil
  | property key value rest ih => exact .cons ⟨rfl, rfl⟩ (ih h.2)
  | block key body rest ihbody ihrest =>
      have hnodup : body.reread.keys.Nodup := keys_reread body ▸ nodup_keys h.2.1
      have hbody : decodeMembers .empty body.members = .ok body.reread :=
        decodeMembers_eq_ok_iff.2 ⟨_, ihbody h.2.1, (ofEntries_entries hnodup).symm⟩
      have hblock : decodeValue (.object body.members) = .ok (.block body.reread) :=
        decodeValue_object_eq_ok_iff.2 ⟨_, hbody, rfl⟩
      exact .cons ⟨rfl, hblock⟩ (ihrest h.2.2)

/-- The tree of a style without repeated keys is decoded as the style reread. -/
theorem decode_members {style : Style} (h : style.DistinctKeys) :
    decode (.object style.members) = .ok style.reread := by
  have hnodup : style.reread.keys.Nodup := keys_reread style ▸ nodup_keys h
  exact decodeMembers_eq_ok_iff.2 ⟨_, forall₂_members h, (ofEntries_entries hnodup).symm⟩

/-- What is read for an integral style is equal to it and has the same form. -/
theorem same_reread {style : Style} (h : style.isIntegral = true) :
    style.same style.reread = true ∧ style.SameForm style.reread := by
  induction style with
  | empty => exact ⟨rfl, .empty⟩
  | property key value rest ih =>
      rw [isIntegral, Bool.and_eq_true] at h
      obtain ⟨hvalue, hvalueForm⟩ := Scalar.same_ofAtom h.1
      obtain ⟨hrest, hrestForm⟩ := ih h.2
      exact ⟨by rw [reread, same, hvalue, hrest, beq_self_eq_true]; rfl,
        .property key hvalueForm hrestForm⟩
  | block key body rest ihbody ihrest =>
      rw [isIntegral, Bool.and_eq_true] at h
      obtain ⟨hbody, hbodyForm⟩ := ihbody h.1
      obtain ⟨hrest, hrestForm⟩ := ihrest h.2
      exact ⟨by rw [reread, same, hbody, hrest, beq_self_eq_true]; rfl,
        .block key hbodyForm hrestForm⟩

theorem isFinite_of_isIntegral {style : Style} (h : style.isIntegral = true) :
    style.isFinite = true ∧ style.reread.isFinite = true := by
  induction style with
  | empty => exact ⟨rfl, rfl⟩
  | property key value rest ih =>
      rw [isIntegral, Bool.and_eq_true] at h
      obtain ⟨hvalue, hread⟩ := Scalar.isFinite_ofAtom h.1
      obtain ⟨hrest, hrestRead⟩ := ih h.2
      rw [reread, isFinite, isFinite, hvalue, hrest, hread, hrestRead]
      exact ⟨rfl, rfl⟩
  | block key body rest ihbody ihrest =>
      rw [isIntegral, Bool.and_eq_true] at h
      obtain ⟨hbody, hbodyRead⟩ := ihbody h.1
      obtain ⟨hrest, hrestRead⟩ := ihrest h.2
      rw [reread, isFinite, isFinite, hbody, hrest, hbodyRead, hrestRead]
      exact ⟨rfl, rfl⟩

/-- The JSON form of a style with integral numbers and no repeated keys is read back as a style that
is equal to it, with the same keys in the same order at every level, and so with the same id, class
name and CSS, if its blocks are nested at most 127 deep; nested deeper, it is malformed. -/
theorem parse_json {o : Style} (hkeys : o.DistinctKeys) (hintegral : o.isIntegral = true) :
    (o.nesting ≤ 127 → ∃ read, parse o.json = .ok read ∧ o.same read = true ∧ o.SameForm read ∧
      read.json = o.json ∧ (StyleInput.style read).compile = (StyleInput.style o).compile) ∧
    (128 ≤ o.nesting → parse o.json = .error (.fault .malformed)) := by
  have hlex := lex_json hintegral
  have hdecode := decode_members hkeys
  refine ⟨fun hdepth => ?_, fun hdepth => ?_⟩
  · rw [← nesting_members] at hdepth
    obtain ⟨hsame, hform⟩ := same_reread hintegral
    obtain ⟨hfinite, hfinite'⟩ := isFinite_of_isIntegral hintegral
    have hjson : o.reread.json = o.json := ((json_eq_iff hfinite hfinite').2 hform).symm
    have hid : (StyleInput.style o.reread).id = (StyleInput.style o).id :=
      congrArg Digest.ofText hjson
    have hcss (name : String) : o.reread.compile name = o.compile name :=
      (compile_eq_of_sameForm hform name).symm
    have hcompile : (StyleInput.style o.reread).compile = (StyleInput.style o).compile := by
      simp only [StyleInput.compile, StyleInput.cssFor, hid, hcss]
    exact ⟨o.reread, parse_eq_ok_iff.2 ⟨_, hlex, hdepth, hdecode⟩, hsame, hform, hjson, hcompile⟩
  · rw [← nesting_members] at hdepth
    rw [parse, Json.Shape.read_of_lex shape hlex]
    exact shape_readTree_of_deep (exists_decode_iff.1 ⟨_, hdecode⟩).2 hdepth

/-- A quote and a line break in keys, a zero with a sign, and so many blocks around them that one
more is too many. -/
theorem parse_json_wrapped :
    let zero := Style.property "a\"b" (.number (.zero true)) .empty
    let leaf := Style.block "\n" zero (.property "c" (.number (.ofInt (-7))) .empty)
    let deep := leaf.wrap "&" 125
    let deeper := leaf.wrap "&" 126
    deep.DistinctKeys ∧ deep.isIntegral = true ∧ deep.nesting = 127 ∧
      (∃ read, parse deep.json = .ok read ∧ deep.same read = true ∧ deep.SameForm read ∧
        read.json = deep.json ∧
        (StyleInput.style read).compile = (StyleInput.style deep).compile) ∧
      deeper.DistinctKeys ∧ deeper.isIntegral = true ∧ deeper.nesting = 128 ∧
      parse deeper.json = .error (.fault .malformed) := by
  intro zero leaf deep deeper
  have hkeys : deep.DistinctKeys := by decide +kernel
  have hintegral : deep.isIntegral = true := by decide +kernel
  have hnesting : deep.nesting = 127 := by decide +kernel
  have hkeys' : deeper.DistinctKeys := by decide +kernel
  have hintegral' : deeper.isIntegral = true := by decide +kernel
  have hnesting' : deeper.nesting = 128 := by decide +kernel
  exact ⟨hkeys, hintegral, hnesting, (parse_json hkeys hintegral).1 (Nat.le_of_eq hnesting), hkeys',
    hintegral', hnesting', (parse_json hkeys' hintegral').2 (Nat.le_of_eq hnesting'.symm)⟩

end Style

end ScopedCss
