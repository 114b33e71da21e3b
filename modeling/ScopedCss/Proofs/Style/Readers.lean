/-
# The readers agree

There are three ways from JSON to a style, and they agree (`Style.readers_agree`).  `Style.ofJson`
takes the entries of an object as they come, and `Style.decode` sets them one after the other.  Of a
value whose objects have their keys in order both make the same style, and both refuse exactly what
is no object or has a list in it.  `Style.ofJson` then names the key of the first list in the order
in which it visits the members (`Json.firstList?`).

`Style.parse` reads a text.  What it reads is, with its keys sorted (`Style.sortKeys`), what can be
taken from the value of the text; the other way around this holds where no key is repeated, since a
list that is replaced by a later value is still read.
-/

import ScopedCss.Proofs.Json.Sorted
import ScopedCss.Proofs.Style.Decode

namespace ScopedCss

namespace Json

/-- Whether a value is a list. -/
def isList : Json → Bool
  | .list _ => true
  | _ => false

mutual

/-- The members met on the way through an object and the objects in it, each before those inside of
it.  Lists are not entered. -/
def visits : Json → List (String × Json)
  | .object members => memberVisits members
  | _ => []

/-- The members met on the way through the given ones. -/
def memberVisits : List (String × Json) → List (String × Json)
  | [] => []
  | (key, x) :: rest => (key, x) :: (visits x ++ memberVisits rest)

end

/-- The key of the first list among the given members. -/
def listKey? (members : List (String × Json)) : Option String :=
  (members.find? fun member => member.2.isList).map Prod.fst

/-- The key of the first list that is met on the way through a value. -/
def firstList? (x : Json) : Option String :=
  listKey? x.visits

section Related

variable {α β : Type} {R : α → β → Prop} {members : List (String × α)} {others : List (String × β)}

theorem forall₂_insert (key : String) {x : α} {y : β} (hxy : R x y)
    (h : List.Forall₂ (Keyed R) members others) :
    List.Forall₂ (Keyed R) (insert key x members) (insert key y others) := by
  induction h with
  | nil => exact .cons ⟨rfl, hxy⟩ .nil
  | @cons m n members others hmn hrest ih =>
      obtain ⟨k, v⟩ := m
      obtain ⟨k', w⟩ := n
      obtain ⟨rfl, hvw⟩ := hmn
      rw [insert, insert]
      dsimp only
      split
      · exact .cons ⟨rfl, hxy⟩ hrest
      · split
        · exact .cons ⟨rfl, hxy⟩ (.cons ⟨rfl, hvw⟩ hrest)
        · exact .cons ⟨rfl, hvw⟩ ih

/-- Related members are sorted alike. -/
theorem forall₂_sortMembers (h : List.Forall₂ (Keyed R) members others) :
    List.Forall₂ (Keyed R) (sortMembers members) (sortMembers others) := by
  have hfold : ∀ {sorted sortedOthers}, List.Forall₂ (Keyed R) sorted sortedOthers →
      List.Forall₂ (Keyed R)
        (members.foldl (fun sorted member => insert member.1 member.2 sorted) sorted)
        (others.foldl (fun sorted member => insert member.1 member.2 sorted) sortedOthers) := by
    induction h with
    | nil => exact fun h => h
    | cons hmn _ ih =>
        intro sorted sortedOthers h
        rw [List.foldl_cons, List.foldl_cons, hmn.1]
        exact ih (forall₂_insert _ hmn.2 h)
  exact hfold .nil

end Related

end Json

namespace Style

/-- The style with the given entries. -/
def ofPairs : List (String × Value) → Style
  | [] => .empty
  | (key, value) :: rest => .cons key value (ofPairs rest)

@[simp] theorem entries_ofPairs (es : List (String × Value)) : (ofPairs es).entries = es := by
  induction es with
  | nil => rfl
  | cons entry es ih => rw [ofPairs, entries_cons, ih]

theorem ofPairs_entries (style : Style) : ofPairs style.entries = style :=
  entries_injective (entries_ofPairs style.entries)

/-- A style with the entries sorted by their keys, also in blocks. -/
def sortKeys : Style → Style
  | .empty => .empty
  | .property key value rest => ofPairs (Json.insert key (.scalar value) (sortKeys rest).entries)
  | .block key body rest =>
    ofPairs (Json.insert key (.block (sortKeys body)) (sortKeys rest).entries)

end Style

/-- A value with the keys sorted if it is a block. -/
def Value.sortKeys : Value → Value
  | .scalar s => .scalar s
  | .block body => .block body.sortKeys

namespace Style

open Json (bind_eq_ok Keyed Listless)

theorem ascending_sortKeys (style : Style) : Json.Ascending style.sortKeys.entries := by
  induction style with
  | empty => exact List.Pairwise.nil
  | property key value rest ih =>
      rw [sortKeys, entries_ofPairs]
      exact Json.ascending_insert key _ ih
  | block key body rest _ ih =>
      rw [sortKeys, entries_ofPairs]
      exact Json.ascending_insert key _ ih

/-- Sorting keeps the values of the keys. -/
theorem get?_sortKeys (style : Style) (key : String) :
    style.sortKeys.get? key = (style.get? key).map Value.sortKeys := by
  have hcons (k : String) (value : Value) (rest : Style)
      (ih : rest.sortKeys.get? key = (rest.get? key).map Value.sortKeys) :
      (ofPairs (Json.insert k value.sortKeys rest.sortKeys.entries)).get? key =
        ((cons k value rest).get? key).map Value.sortKeys := by
    rw [get?, entries_ofPairs, Json.lookup_insert, get?_cons, ← get?, ih]
    split <;> rfl
  induction style with
  | empty => rfl
  | property k value rest ih => exact hcons k (.scalar value) rest ih
  | block k body rest _ ih => exact hcons k (.block body) rest ih

/-- Setting a key before sorting is inserting it afterwards. -/
theorem sortKeys_set (style : Style) (key : String) (value : Value) :
    (style.set key value).sortKeys.entries =
      Json.insert key value.sortKeys style.sortKeys.entries := by
  refine Json.eq_of_lookup_eq (ascending_sortKeys _)
    (Json.ascending_insert key _ (ascending_sortKeys style)) fun other => ?_
  rw [← get?, get?_sortKeys, get?_set, Json.lookup_insert, ← get?, get?_sortKeys]
  split <;> rfl

theorem sortKeys_setAll (style : Style) (es : List (String × Value)) :
    (style.setAll es).sortKeys.entries =
      (es.map fun entry => (entry.1, entry.2.sortKeys)).foldl
        (fun sorted member => Json.insert member.1 member.2 sorted) style.sortKeys.entries := by
  induction es generalizing style with
  | nil => rfl
  | cons entry es ih => rw [setAll_cons, ih, sortKeys_set, List.map_cons, List.foldl_cons]

theorem sortKeys_ofEntries (es : List (String × Value)) :
    (ofEntries es).sortKeys.entries =
      Json.sortMembers (es.map fun entry => (entry.1, entry.2.sortKeys)) :=
  sortKeys_setAll .empty es

variable {members : List (String × Json)}

theorem valueOfJson_atom (key : String) (a : Json.Atom) :
    valueOfJson key (.atom a) = .ok (.scalar (.ofAtom a)) := by
  cases a <;> rfl

theorem valueOfJson_object_eq_ok_iff {key : String} {y : Value} :
    valueOfJson key (.object members) = .ok y ↔
      ∃ o, styleOfMembers members = .ok o ∧ y = .block o := by
  rw [valueOfJson]
  cases styleOfMembers members with
  | error e => simp [Except.map]
  | ok o => simp [Except.map, eq_comm]

theorem styleOfMembers_cons_eq_ok_iff {key : String} {x : Json} {o : Style} :
    styleOfMembers ((key, x) :: members) = .ok o ↔
      ∃ y tail, valueOfJson key x = .ok y ∧ styleOfMembers members = .ok tail ∧
        o = cons key y tail := by
  rw [styleOfMembers, bind_eq_ok]
  constructor
  · rintro ⟨y, hy, hrest⟩
    obtain ⟨tail, htail, ho⟩ := bind_eq_ok.1 hrest
    exact ⟨y, tail, hy, htail, (Except.ok.inj ho).symm⟩
  · rintro ⟨y, tail, hy, htail, rfl⟩
    exact ⟨y, hy, bind_eq_ok.2 ⟨tail, htail, rfl⟩⟩

theorem styleOfMembers_of_forall₂ {es : List (String × Value)}
    (h : List.Forall₂ (Keyed fun x y => ∀ key, valueOfJson key x = .ok y) members es) :
    styleOfMembers members = .ok (ofPairs es) := by
  induction h with
  | nil => rfl
  | cons hmember _ ih =>
      rw [styleOfMembers_cons_eq_ok_iff]
      exact ⟨_, _, hmember.2 _, ih, by rw [ofPairs, hmember.1]⟩

theorem forall₂_of_styleOfMembers {R : Json → Value → Prop} {o : Style}
    (h : ∀ m ∈ members, ∀ key y, valueOfJson key m.2 = .ok y → R m.2 y)
    (ho : styleOfMembers members = .ok o) : List.Forall₂ (Keyed R) members o.entries := by
  induction members generalizing o with
  | nil =>
      cases ho
      exact .nil
  | cons member members ih =>
      obtain ⟨y, tail, hy, htail, rfl⟩ := styleOfMembers_cons_eq_ok_iff.1 ho
      rw [entries_cons]
      exact .cons ⟨rfl, h member List.mem_cons_self _ y hy⟩
        (ih (fun m hm => h m (List.mem_cons_of_mem member hm)) htail)

theorem decodeMembers_of_styleOfMembers {o : Style}
    (h : ∀ m ∈ members, ∀ key y, valueOfJson key m.2 = .ok y → decodeValue m.2 = .ok y)
    (hkeys : (members.map Prod.fst).Nodup) (ho : styleOfMembers members = .ok o) :
    decodeMembers .empty members = .ok o := by
  have hentries : List.Forall₂ (Keyed fun x y => decodeValue x = .ok y) members o.entries :=
    forall₂_of_styleOfMembers h ho
  have hnodup : o.keys.Nodup := by
    have hsame : List.Forall₂ (· = ·) (members.map Prod.fst) (o.entries.map Prod.fst) :=
      List.forall₂_map_left_iff.2 (List.forall₂_map_right_iff.2 (hentries.imp fun _ _ h => h.1))
    rw [List.forall₂_eq_eq_eq] at hsame
    rwa [keys, ← hsame]
  exact decodeMembers_eq_ok_iff.2 ⟨o.entries, hentries, (ofEntries_entries hnodup).symm⟩

/-- What is taken from a value without repeated keys is also decoded from it. -/
theorem decodeValue_of_valueOfJson {x : Json} (hx : x.DistinctKeys) {key : String} {y : Value}
    (h : valueOfJson key x = .ok y) : decodeValue x = .ok y := by
  induction hx generalizing key y with
  | atom a =>
      rw [valueOfJson_atom] at h
      cases h
      rfl
  | list hitems => cases h
  | object hkeys hmembers ih =>
      obtain ⟨o, ho, rfl⟩ := valueOfJson_object_eq_ok_iff.1 h
      have hdecoded := decodeMembers_of_styleOfMembers (fun m hm _ _ => ih m hm) hkeys ho
      exact decodeValue_object_eq_ok_iff.2 ⟨o, hdecoded, rfl⟩

theorem decode_of_ofJson {v : Json} (hv : v.DistinctKeys) {o : Style} (h : ofJson v = .ok o) :
    decode v = .ok o := by
  cases hv with
  | atom a => cases h
  | list hitems => cases h
  | object hkeys hmembers =>
      exact decodeMembers_of_styleOfMembers
        (fun m hm _ _ => decodeValue_of_valueOfJson (hmembers m hm)) hkeys h

theorem exists_styleOfMembers_iff
    (h : ∀ m ∈ members, ∀ key, (∃ y, valueOfJson key m.2 = .ok y) ↔ m.2.Listless) :
    (∃ o, styleOfMembers members = .ok o) ↔ ∀ m ∈ members, m.2.Listless := by
  induction members with
  | nil => exact iff_of_true ⟨_, rfl⟩ (by simp)
  | cons member members ih =>
      have hrest := ih fun m hm => h m (List.mem_cons_of_mem member hm)
      rw [List.forall_mem_cons, ← h member List.mem_cons_self member.1, ← hrest]
      constructor
      · rintro ⟨o, ho⟩
        obtain ⟨y, tail, hy, htail, -⟩ := styleOfMembers_cons_eq_ok_iff.1 ho
        exact ⟨⟨y, hy⟩, tail, htail⟩
      · rintro ⟨⟨y, hy⟩, tail, htail⟩
        exact ⟨_, styleOfMembers_cons_eq_ok_iff.2 ⟨y, tail, hy, htail, rfl⟩⟩

theorem exists_valueOfJson_iff (x : Json) (key : String) :
    (∃ y, valueOfJson key x = .ok y) ↔ x.Listless := by
  induction x using Json.induction generalizing key with
  | atom a => exact iff_of_true ⟨_, valueOfJson_atom key a⟩ (.atom a)
  | list items ih =>
      refine iff_of_false ?_ ?_
      · rintro ⟨y, hy⟩
        cases hy
      · rintro ⟨⟩
  | object members ih =>
      have hmembers := exists_styleOfMembers_iff ih
      constructor
      · rintro ⟨y, hy⟩
        obtain ⟨o, ho, -⟩ := valueOfJson_object_eq_ok_iff.1 hy
        exact .object (hmembers.1 ⟨o, ho⟩)
      · rintro ⟨⟩
        next h =>
        obtain ⟨o, ho⟩ := hmembers.2 h
        exact ⟨.block o, valueOfJson_object_eq_ok_iff.2 ⟨o, ho, rfl⟩⟩

/-- A style can be taken from the objects without a list, and from nothing else. -/
theorem exists_ofJson_iff {v : Json} :
    (∃ o, ofJson v = .ok o) ↔ v.isObject = true ∧ v.Listless := by
  cases v with
  | atom a => simp [ofJson, Json.isObject]
  | list items => simp [ofJson, Json.isObject]
  | object members =>
      rw [ofJson, exists_styleOfMembers_iff fun m _ => exists_valueOfJson_iff m.2]
      constructor
      · exact fun h => ⟨rfl, .object h⟩
      · rintro ⟨-, ⟨⟩⟩
        assumption

/-! ## The first list -/

theorem listKey?_append (first second : List (String × Json)) :
    Json.listKey? (first ++ second) = (Json.listKey? first).or (Json.listKey? second) := by
  rw [Json.listKey?, List.find?_append, Option.map_or]
  rfl

theorem listKey?_memberVisits_cons (key : String) (x : Json) (members : List (String × Json)) :
    Json.listKey? (Json.memberVisits ((key, x) :: members)) =
      (Json.listKey? ((key, x) :: x.visits)).or (Json.listKey? (Json.memberVisits members)) := by
  rw [Json.memberVisits, ← List.cons_append, listKey?_append]

theorem listKey?_cons_visits {x : Json} (hx : x.isList = false) (key : String) :
    Json.listKey? ((key, x) :: x.visits) = Json.listKey? x.visits := by
  rw [Json.listKey?, List.find?_cons_of_neg (by simp [hx]), ← Json.listKey?]

theorem listKey?_memberVisits_eq_none
    (h : ∀ m ∈ members, Json.listKey? ((m.1, m.2) :: m.2.visits) = none) :
    Json.listKey? (Json.memberVisits members) = none := by
  induction members with
  | nil => rfl
  | cons member members ih =>
      rw [listKey?_memberVisits_cons, h member List.mem_cons_self,
        ih fun m hm => h m (List.mem_cons_of_mem member hm)]
      rfl

theorem listKey?_of_listless {x : Json} (h : x.Listless) (key : String) :
    Json.listKey? ((key, x) :: x.visits) = none := by
  induction h generalizing key with
  | atom a => rfl
  | object hmembers ih =>
      rw [listKey?_cons_visits rfl, Json.visits]
      exact listKey?_memberVisits_eq_none fun m hm => ih m hm m.1

theorem styleOfMembers_eq_error {e : InvalidStyle}
    (h : ∀ m ∈ members, ∀ key e, valueOfJson key m.2 = .error e →
      Json.listKey? ((key, m.2) :: m.2.visits) = some e.key ∧ e.reason = .list)
    (he : styleOfMembers members = .error e) :
    Json.listKey? (Json.memberVisits members) = some e.key ∧ e.reason = .list := by
  induction members with
  | nil => cases he
  | cons member members ih =>
      obtain ⟨key, x⟩ := member
      rw [styleOfMembers] at he
      rw [listKey?_memberVisits_cons]
      cases hx : valueOfJson key x with
      | error failure =>
          rw [hx] at he
          cases he
          obtain ⟨hkey, hreason⟩ := h _ List.mem_cons_self key e hx
          rw [hkey]
          exact ⟨rfl, hreason⟩
      | ok y =>
          have hlistless := (exists_valueOfJson_iff x key).1 ⟨y, hx⟩
          rw [listKey?_of_listless hlistless, Option.none_or]
          cases hrest : styleOfMembers members with
          | error failure =>
              rw [hx, hrest] at he
              cases he
              exact ih (fun m hm => h m (List.mem_cons_of_mem _ hm)) hrest
          | ok tail =>
              rw [hx, hrest] at he
              cases he

theorem valueOfJson_eq_error {x : Json} {key : String} {e : InvalidStyle}
    (he : valueOfJson key x = .error e) :
    Json.listKey? ((key, x) :: x.visits) = some e.key ∧ e.reason = .list := by
  induction x using Json.induction generalizing key e with
  | atom a =>
      rw [valueOfJson_atom] at he
      cases he
  | list items ih =>
      cases he
      exact ⟨rfl, rfl⟩
  | object members ih =>
      rw [listKey?_cons_visits rfl, Json.visits]
      refine styleOfMembers_eq_error (fun m hm _ _ => ih m hm) ?_
      rw [valueOfJson] at he
      cases hmembers : styleOfMembers members with
      | error failure =>
          rw [hmembers] at he
          cases he
          rfl
      | ok o =>
          rw [hmembers] at he
          cases he

/-- An object of which no style can be taken is refused at its first list. -/
theorem ofJson_object_eq_error {e : InvalidStyle} (he : ofJson (.object members) = .error e) :
    (Json.object members).firstList? = some e.key ∧ e.reason = .list := by
  rw [Json.firstList?, Json.visits]
  exact styleOfMembers_eq_error (fun _ _ _ _ => valueOfJson_eq_error) he

theorem styleOfMembers_sorted {o : Style}
    (h : ∀ m ∈ members, ∀ y, decodeValue m.2 = .ok y → ∀ key,
      valueOfJson key m.2.sorted = .ok y.sortKeys)
    (ho : decodeMembers .empty members = .ok o) :
    styleOfMembers (Json.sortMembers (members.map fun m => (m.1, m.2.sorted))) =
      .ok o.sortKeys := by
  obtain ⟨es, hes, rfl⟩ := decodeMembers_eq_ok_iff.1 ho
  have hrelated : List.Forall₂ (Keyed fun x y => ∀ key, valueOfJson key x = .ok y)
      (members.map fun m => (m.1, m.2.sorted))
      (es.map fun entry => (entry.1, entry.2.sortKeys)) := by
    clear ho
    induction hes with
    | nil => exact .nil
    | cons hmember _ ih =>
        exact .cons ⟨hmember.1, h _ List.mem_cons_self _ hmember.2⟩
          (ih fun m hm => h m (List.mem_cons_of_mem _ hm))
  rw [styleOfMembers_of_forall₂ (Json.forall₂_sortMembers hrelated), ← sortKeys_ofEntries,
    ofPairs_entries]
  rfl

theorem valueOfJson_sorted {x : Json} {y : Value} (h : decodeValue x = .ok y) (key : String) :
    valueOfJson key x.sorted = .ok y.sortKeys := by
  induction x using Json.induction generalizing y key with
  | atom a =>
      cases h
      exact valueOfJson_atom key a
  | list items ih => cases h
  | object members ih =>
      obtain ⟨o, ho, rfl⟩ := decodeValue_object_eq_ok_iff.1 h
      rw [Json.sorted_object]
      exact valueOfJson_object_eq_ok_iff.2
        ⟨o.sortKeys, styleOfMembers_sorted (fun m hm _ => ih m hm) ho, rfl⟩

/-- What is decoded from a tree can be taken from the tree sorted, with sorted keys. -/
theorem ofJson_sorted {tree : Json} {o : Style} (h : decode tree = .ok o) :
    ofJson tree.sorted = .ok o.sortKeys := by
  cases tree with
  | atom a => cases h
  | list items => cases h
  | object members =>
      rw [Json.sorted_object]
      exact styleOfMembers_sorted (fun _ _ _ => valueOfJson_sorted) h

/-- Where no key is repeated, sorting drops no list. -/
theorem listless_of_sorted {x : Json} (hx : x.DistinctKeys) (h : x.sorted.Listless) :
    x.Listless := by
  induction hx with
  | atom a => exact .atom a
  | list hitems => cases h
  | @object members hkeys hmembers ih =>
      rw [Json.sorted_object] at h
      cases h with
      | object hsorted =>
          refine .object fun m hm => ih m hm ?_
          have hnodup : ((members.map fun m => (m.1, m.2.sorted)).map Prod.fst).Nodup := by
            rwa [List.map_map]
          exact hsorted _ (Json.mem_sortMembers hnodup (List.mem_map_of_mem hm))

theorem isObject_sorted (x : Json) : x.sorted.isObject = x.isObject := by
  cases x <;> rfl

/-- The readers agree.  Of a value with its keys in order both readers of values make the same
style, or neither makes one; they take the objects without a list at any depth.  The one that tells
where a value is wrong names the key of the first list of an object, and never a number out of
range.  What is read from a text is, with its keys sorted, what is taken from the value of the text;
and from a text without repeated keys a style is read if one is taken from its value. -/
theorem readers_agree :
    (∀ v : Json, v.InOrder →
      ((∃ o, ofJson v = .ok o) ↔ v.isObject = true ∧ v.Listless) ∧
      ((∃ o, decode v = .ok o) ↔ v.isObject = true ∧ v.Listless) ∧
      (∀ o, ofJson v = .ok o ↔ decode v = .ok o) ∧
      ∀ e, ofJson v = .error e →
        e.reason ≠ .outOfRange ∧
        if v.isObject then v.firstList? = some e.key ∧ e.reason = .list
        else e = ⟨"<root>", .notObject (kindName v)⟩) ∧
    (∀ text o, parse text = .ok o →
      ∃ v, Json.parse text = .ok v ∧ v.InOrder ∧ ofJson v = .ok o.sortKeys) ∧
    (∀ text w v o, Json.asWritten.read text.toList = .ok w → w.DistinctKeys →
      Json.parse text = .ok v → ofJson v = .ok o → ∃ o', parse text = .ok o') := by
  refine ⟨fun v hv => ⟨exists_ofJson_iff, exists_decode_iff, fun o => ⟨?_, ?_⟩, fun e he => ?_⟩,
    fun text o ho => ?_, fun text w v o hw hdistinct hv ho => ?_⟩
  · exact decode_of_ofJson hv.distinctKeys
  · intro ho
    obtain ⟨o', ho'⟩ := exists_ofJson_iff.2 (exists_decode_iff.1 ⟨o, ho⟩)
    have hsame := ho.symm.trans (decode_of_ofJson hv.distinctKeys ho')
    rw [Except.ok.inj hsame, ho']
  · cases v with
    | object members =>
        obtain ⟨hkey, hreason⟩ := ofJson_object_eq_error he
        exact ⟨by rw [hreason]; decide, hkey, hreason⟩
    | atom a =>
        cases he
        exact ⟨by simp, rfl⟩
    | list items =>
        cases he
        exact ⟨by simp, rfl⟩
  · obtain ⟨tree, hlex, hdepth, hdecode⟩ := parse_eq_ok_iff.1 ho
    have hvalue := Json.parse_eq_ok_iff.2 ⟨tree, hlex, hdepth, rfl⟩
    exact ⟨tree.sorted, hvalue, Json.inOrder_of_parse hvalue, ofJson_sorted hdecode⟩
  · obtain ⟨tree, hlex, hdepth, rfl⟩ := Json.parse_eq_ok_iff.1 hv
    obtain rfl := Json.eq_of_asWritten_read hlex hw
    obtain ⟨hobject, hlistless⟩ := exists_ofJson_iff.1 ⟨o, ho⟩
    rw [isObject_sorted] at hobject
    obtain ⟨o', ho'⟩ := exists_decode_iff.2 ⟨hobject, listless_of_sorted hdistinct hlistless⟩
    exact ⟨o', parse_eq_ok_iff.2 ⟨w, hlex, hdepth, ho'⟩⟩

/-- A value with a list behind an object, and a text with keys out of order at both levels. -/
theorem readers_agree_nested :
    let listed := Json.object [("a", .object [("b", .null)]), ("c", .list [])]
    let text := "\x7b\"b\":\"x\",\"a\":\x7b\"d\":true,\"c\":null\x7d\x7d"
    let tree := Json.object
      [("b", .ofText "x"), ("a", .object [("d", .ofBool true), ("c", .null)])]
    let o := Style.property "b" (.text "x")
      (.block "a" (.property "d" (.text "true") (.property "c" (.text "null") .empty)) .empty)
    listed.InOrder ∧ ofJson listed = .error ⟨"c", .list⟩ ∧ listed.firstList? = some "c" ∧
      Json.asWritten.read text.toList = .ok tree ∧ tree.DistinctKeys ∧
      parse text = .ok o ∧ o.sortKeys ≠ o ∧
      (∃ v, Json.parse text = .ok v ∧ v.InOrder ∧ ofJson v = .ok o.sortKeys) ∧
      ∃ o', parse text = .ok o' := by
  intro listed text tree o
  obtain ⟨hvalues, hsorted, hread⟩ := readers_agree
  have horder : listed.InOrder := by
    refine .object (by decide) (List.forall_mem_cons.2 ⟨?_, List.forall_mem_singleton.2 ?_⟩)
    · exact .object (by decide) (List.forall_mem_singleton.2 (.atom _))
    · exact .list (by simp)
  have hrefused : ofJson listed = .error ⟨"c", .list⟩ := rfl
  obtain ⟨-, -, -, herror⟩ := hvalues listed horder
  have hlex : Json.lex text.toList = Json.lexemes tree := by decide +kernel
  have hdepth : tree.nesting ≤ Json.depthLimit := by decide
  have hwritten : Json.asWritten.read text.toList = .ok tree := by
    rw [Json.Shape.read_of_lex _ hlex, Json.asWritten, Json.gathering_readTree hdepth,
      Json.rebuild_self]
  have hdistinct : tree.DistinctKeys := by
    refine .object (by decide) (List.forall_mem_cons.2 ⟨.atom _, List.forall_mem_singleton.2 ?_⟩)
    refine .object (by decide) (List.forall_mem_cons.2 ⟨.atom _, ?_⟩)
    exact List.forall_mem_singleton.2 (.atom _)
  have hparse : parse text = .ok o := parse_eq_ok_iff.2 ⟨tree, hlex, hdepth, by decide +kernel⟩
  obtain ⟨v, hv, hvorder, hjson⟩ := hsorted text o hparse
  exact ⟨horder, hrefused, (herror _ hrefused).2.1, hwritten, hdistinct, hparse, by decide +kernel,
    ⟨v, hv, hvorder, hjson⟩, hread text tree v _ hwritten hdistinct hv hjson⟩

end Style

end ScopedCss
