/-
# Styles decoded from trees

`Style.decode` makes a style of a JSON value, setting one key after the other.  Reading a text does
the same with the tree of the text: `Style.parse` succeeds exactly on the texts of trees that are
not nested too deep and can be decoded (`Style.parse_eq_ok_iff`).  What can be decoded are the
objects without a list at any depth (`Style.exists_decode_iff`).
-/

import Mathlib.Data.List.Forall2
import ScopedCss.Proofs.Json.Tree
import ScopedCss.Proofs.Table
import ScopedCss.Style.Reader

namespace ScopedCss

/-- A relation of values, between members with the same key. -/
def Json.Keyed {α β : Type} (R : α → β → Prop) (m : String × α) (n : String × β) : Prop :=
  m.1 = n.1 ∧ R m.2 n.2

/-- No list stands anywhere in a value. -/
inductive Json.Listless : Json → Prop
  | atom (a : Json.Atom) : Listless (.atom a)
  | object {members : List (String × Json)} (h : ∀ member ∈ members, Listless member.2) :
      Listless (.object members)

/-- Whether a value is an object. -/
def Json.isObject : Json → Bool
  | .object _ => true
  | _ => false

namespace Style

open Json (ok_bind error_bind mapError_ok bind_eq_ok Keyed Listless depthLimit)

/-- Setting a key in a style is putting it into the table of its entries. -/
theorem entries_set (style : Style) (key : String) (value : Value) :
    (style.set key value).entries = Table.put style.entries key value := by
  induction style with
  | empty => exact entries_cons key value .empty
  | property k v rest ih =>
      rw [set, entries, Table.put]
      split
      · exact entries_cons key value rest
      · rw [entries, ih]
  | block k body rest _ ih =>
      rw [set, entries, Table.put]
      split
      · exact entries_cons key value rest
      · rw [entries, ih]

theorem entries_setAll (style : Style) (es : List (String × Value)) :
    (style.setAll es).entries = Table.putAll style.entries es := by
  induction es generalizing style with
  | nil => rfl
  | cons entry es ih =>
      rw [setAll_cons, ih, entries_set]
      rfl

theorem entries_injective {style other : Style} (h : style.entries = other.entries) :
    style = other := by
  induction style generalizing other with
  | empty =>
      cases other with
      | empty => rfl
      | _ => cases h
  | property key v rest ih =>
      cases other with
      | property key' v' rest' =>
          rw [entries, entries, List.cons.injEq] at h
          cases h.1
          rw [ih h.2]
      | _ => cases h
  | block key body rest _ ih =>
      cases other with
      | block key' body' rest' =>
          rw [entries, entries, List.cons.injEq] at h
          cases h.1
          rw [ih h.2]
      | _ => cases h

/-- A style without repeated keys is what its entries are set to. -/
theorem ofEntries_entries {style : Style} (h : style.keys.Nodup) :
    ofEntries style.entries = style := by
  have hput : Table.putAll [] style.entries = style.entries :=
    Table.putAll_eq_append h fun _ _ => List.not_mem_nil
  exact entries_injective ((entries_setAll .empty style.entries).trans hput)

theorem decodeMembers_eq_ok_iff {style o : Style} {members : List (String × Json)} :
    decodeMembers style members = .ok o ↔
      ∃ es, List.Forall₂ (Keyed fun x y => decodeValue x = .ok y) members es ∧
        o = style.setAll es := by
  induction members generalizing style with
  | nil =>
      rw [decodeMembers, Except.ok.injEq]
      constructor
      · rintro rfl
        exact ⟨[], .nil, rfl⟩
      · rintro ⟨es, hes, rfl⟩
        cases hes
        rfl
  | cons member members ih =>
      obtain ⟨key, x⟩ := member
      rw [decodeMembers, bind_eq_ok]
      constructor
      · rintro ⟨y, hy, hrest⟩
        obtain ⟨es, hes, rfl⟩ := ih.1 hrest
        exact ⟨(key, y) :: es, .cons ⟨rfl, hy⟩ hes, rfl⟩
      · rintro ⟨es, hes, rfl⟩
        cases hes with
        | @cons _ entry _ es hentry hes =>
            obtain ⟨k, y⟩ := entry
            obtain ⟨rfl, hy⟩ := hentry
            exact ⟨y, hy, ih.2 ⟨es, hes, rfl⟩⟩

theorem decodeValue_object_eq_ok_iff {members : List (String × Json)} {y : Value} :
    decodeValue (.object members) = .ok y ↔
      ∃ o, decodeMembers .empty members = .ok o ∧ y = .block o := by
  rw [decodeValue]
  cases decodeMembers .empty members with
  | error e => simp [Except.map]
  | ok o => simp [Except.map, eq_comm]

theorem exists_decodeMembers_iff {members : List (String × Json)}
    (h : ∀ m ∈ members, (∃ y, decodeValue m.2 = .ok y) ↔ m.2.Listless) (style : Style) :
    (∃ o, decodeMembers style members = .ok o) ↔ ∀ m ∈ members, m.2.Listless := by
  induction members generalizing style with
  | nil => exact iff_of_true ⟨style, rfl⟩ (by simp)
  | cons member members ih =>
      have hrest := ih fun m hm => h m (List.mem_cons_of_mem member hm)
      rw [List.forall_mem_cons, ← h member List.mem_cons_self]
      constructor
      · rintro ⟨o, ho⟩
        obtain ⟨y, hy, hmembers⟩ := bind_eq_ok.1 ho
        exact ⟨⟨y, hy⟩, (hrest _).1 ⟨o, hmembers⟩⟩
      · rintro ⟨⟨y, hy⟩, hmembers⟩
        obtain ⟨o, ho⟩ := (hrest (style.set member.1 y)).2 hmembers
        exact ⟨o, bind_eq_ok.2 ⟨y, hy, ho⟩⟩

theorem exists_decodeValue_iff (x : Json) : (∃ y, decodeValue x = .ok y) ↔ x.Listless := by
  induction x using Json.induction with
  | atom a => exact iff_of_true ⟨_, rfl⟩ (.atom a)
  | list items ih =>
      refine iff_of_false ?_ ?_
      · rintro ⟨y, hy⟩
        cases hy
      · rintro ⟨⟩
  | object members ih =>
      have hmembers := exists_decodeMembers_iff ih .empty
      constructor
      · rintro ⟨y, hy⟩
        obtain ⟨o, ho, -⟩ := decodeValue_object_eq_ok_iff.1 hy
        exact .object (hmembers.1 ⟨o, ho⟩)
      · rintro ⟨⟩
        next h =>
        obtain ⟨o, ho⟩ := hmembers.2 h
        exact ⟨.block o, decodeValue_object_eq_ok_iff.2 ⟨o, ho, rfl⟩⟩

/-- The objects without a list can be decoded, and nothing else can. -/
theorem exists_decode_iff {x : Json} :
    (∃ o, decode x = .ok o) ↔ x.isObject = true ∧ x.Listless := by
  cases x with
  | atom a => simp [decode, Json.isObject]
  | list items => simp [decode, Json.isObject]
  | object members =>
      rw [decode, exists_decodeMembers_iff fun m _ => exists_decodeValue_iff m.2]
      constructor
      · exact fun h => ⟨rfl, .object h⟩
      · rintro ⟨-, ⟨⟩⟩
        assumption

section Reading

variable {room : Nat} {members : List (String × Json)}

/-- Members are read and then set, or decoded as they are met. -/
theorem shape_readMembers
    (h : ∀ m ∈ members, m.2.nesting ≤ room →
      shape.readInner room m.2 = (decodeValue m.2).mapError .mismatch)
    (hroom : Json.nestingMembers members ≤ room) (style : Style) :
    (do let es ← shape.readMembers room members; .ok (style.setAll es)) =
      (decodeMembers style members).mapError .mismatch := by
  induction members generalizing style with
  | nil => rfl
  | cons member members ih =>
      obtain ⟨key, x⟩ := member
      obtain ⟨hx, hmembers⟩ := Nat.max_le.1 hroom
      have hrest := ih (fun m hm => h m (List.mem_cons_of_mem _ hm)) hmembers
      rw [Json.Shape.readMembers, decodeMembers, h _ List.mem_cons_self hx]
      cases decodeValue x with
      | error mismatch => rfl
      | ok y =>
          rw [ok_bind, ← hrest (style.set key y)]
          simp only [mapError_ok, ok_bind, bind_assoc, setAll_cons]

/-- Where there is room for it, a value is read as it is decoded. -/
theorem shape_readInner {x : Json} (hroom : x.nesting ≤ room) :
    shape.readInner room x = (decodeValue x).mapError .mismatch := by
  induction x using Json.induction generalizing room with
  | atom a => rfl
  | list items ih =>
      cases room with
      | zero => cases hroom
      | succ room => rfl
  | object members ih =>
      cases room with
      | zero => cases hroom
      | succ room =>
          have hmembers := shape_readMembers (fun m hm => ih m hm)
            (Nat.le_of_succ_le_succ hroom) .empty
          have hnested : shape.readInner (room + 1) (.object members) =
              (do
                let o ← (do
                  let es ← shape.readMembers room members
                  .ok (Style.empty.setAll es))
                .ok (Value.block o)) := by
            rw [bind_assoc]
            rfl
          rw [hnested, hmembers, decodeValue]
          cases decodeMembers .empty members <;> rfl

/-- A text that is not nested too deep is read as its tree is decoded. -/
theorem shape_readTree {tree : Json} (hdepth : tree.nesting ≤ depthLimit) :
    shape.readTree tree = (decode tree).mapError .mismatch := by
  cases tree with
  | atom a => rfl
  | list items => rfl
  | object members =>
      have hroom : Json.nestingMembers members ≤ 126 := Nat.le_of_succ_le_succ hdepth
      exact shape_readMembers (fun _ _ => shape_readInner) hroom .empty

theorem shape_readMembers_of_deep (hlistless : ∀ m ∈ members, m.2.Listless)
    (h : ∀ m ∈ members, room < m.2.nesting →
      shape.readInner room m.2 = .error (.fault .malformed))
    (hroom : room < Json.nestingMembers members) :
    shape.readMembers room members = .error (.fault .malformed) := by
  induction members with
  | nil => cases hroom
  | cons member members ih =>
      obtain ⟨key, x⟩ := member
      rw [Json.Shape.readMembers]
      by_cases hx : room < x.nesting
      · rw [h _ List.mem_cons_self hx, error_bind]
      · obtain ⟨y, hy⟩ := (exists_decodeValue_iff x).2 (hlistless _ List.mem_cons_self)
        have hmax : room < max x.nesting (Json.nestingMembers members) := hroom
        have hrest : room < Json.nestingMembers members := by omega
        rw [shape_readInner (Nat.le_of_not_lt hx), hy, mapError_ok, ok_bind,
          ih (fun m hm => hlistless m (List.mem_cons_of_mem _ hm))
            (fun m hm => h m (List.mem_cons_of_mem _ hm)) hrest, error_bind]

/-- Where the room for it is used up, a value without lists is malformed. -/
theorem shape_readInner_of_deep {x : Json} (hlistless : x.Listless) (hroom : room < x.nesting) :
    shape.readInner room x = .error (.fault .malformed) := by
  induction hlistless generalizing room with
  | atom a => cases hroom
  | object hmembers ih =>
      cases room with
      | zero => rfl
      | succ room =>
          have hdeep := shape_readMembers_of_deep hmembers (fun m hm => ih m hm)
            (Nat.lt_of_succ_lt_succ hroom)
          rw [Json.Shape.readInner, Json.enclosed, hdeep, error_bind]

/-- A text without lists that is nested too deep is malformed. -/
theorem shape_readTree_of_deep {tree : Json} (hlistless : tree.Listless)
    (hdepth : depthLimit < tree.nesting) : shape.readTree tree = .error (.fault .malformed) := by
  cases hlistless with
  | atom a => cases hdepth
  | @object members hmembers =>
      have hroom : 126 < Json.nestingMembers members := Nat.lt_of_succ_lt_succ hdepth
      have hdeep := shape_readMembers_of_deep hmembers
        (fun m hm => shape_readInner_of_deep (hmembers m hm)) hroom
      rw [Json.Shape.readTree, depthLimit, Json.enclosed, hdeep, error_bind]

end Reading

/-- A text is read as a style exactly if it is the text of a tree that can be decoded and is not
nested too deep. -/
theorem parse_eq_ok_iff {text : String} {o : Style} :
    parse text = .ok o ↔
      ∃ tree, Json.lex text.toList = Json.lexemes tree ∧ tree.nesting ≤ depthLimit ∧
        decode tree = .ok o := by
  constructor
  · intro h
    obtain ⟨tree, hlex⟩ := Json.Shape.exists_lex_eq h
    rw [parse, Json.Shape.read_of_lex shape hlex] at h
    have hdepth := Json.Shape.nesting_le_of_readTree h
    rw [shape_readTree hdepth] at h
    refine ⟨tree, hlex, hdepth, ?_⟩
    cases hdecoded : decode tree with
    | error mismatch =>
        rw [hdecoded] at h
        cases h
    | ok decoded =>
        rw [hdecoded] at h
        cases h
        rfl
  · rintro ⟨tree, hlex, hdepth, hdecode⟩
    rw [parse, Json.Shape.read_of_lex shape hlex, shape_readTree hdepth, hdecode]
    rfl

end Style

end ScopedCss
