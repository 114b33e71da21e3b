/-
# Objects in the order of their keys

Members in strictly ascending order of their keys are determined by the values of the keys
(`eq_of_lookup_eq`), and `insert` keeps them so.  `Json.sorted` is a written tree with the members
of every object sorted; it is what `Json.parse` makes of the tree of a text.
-/

import Mathlib.Data.List.Induction
import Mathlib.Data.String.Basic
import ScopedCss.Proofs.Json.Tree
import ScopedCss.Table

namespace ScopedCss.Json

/-- Members with strictly ascending keys. -/
def Ascending {α : Type} (members : List (String × α)) : Prop :=
  (members.map Prod.fst).Pairwise (· < ·)

section Members

variable {α : Type} {key k : String} {value v : α} {members others : List (String × α)}

theorem ascending_cons :
    Ascending ((k, v) :: members) ↔
      (∀ member ∈ members, k < member.1) ∧ Ascending members := by
  simp [Ascending, List.pairwise_cons]

theorem lookup_cons_eq (key k : String) (v : α) (members : List (String × α)) :
    ((k, v) :: members).lookup key = if key = k then some v else members.lookup key :=
  Table.get?_cons k key v members

theorem lookup_eq_none_of_lt (h : ∀ member ∈ members, key < member.1) :
    members.lookup key = none := by
  rw [List.lookup_eq_none_iff]
  intro member hmember
  exact bne_iff_ne.2 (ne_of_lt (h member hmember))

theorem lookup_cons_of_lt (h : key < k) (hmembers : ∀ member ∈ members, k < member.1) :
    ((k, v) :: members).lookup key = none := by
  refine lookup_eq_none_of_lt (List.forall_mem_cons.2 ⟨h, fun member hmember => ?_⟩)
  exact h.trans (hmembers member hmember)

/-- Members in order are told by the values of the keys. -/
theorem eq_of_lookup_eq (hmembers : Ascending members) (hothers : Ascending others)
    (h : ∀ key, members.lookup key = others.lookup key) : members = others := by
  induction members generalizing others with
  | nil =>
      cases others with
      | nil => rfl
      | cons other others =>
          have hfirst := h other.1
          rw [lookup_cons_eq, if_pos rfl] at hfirst
          cases hfirst
  | cons member members ih =>
      obtain ⟨k, v⟩ := member
      obtain ⟨hlt, hrest⟩ := ascending_cons.1 hmembers
      have hv : some v = others.lookup k := by
        rw [← h k, lookup_cons_eq, if_pos rfl]
      cases others with
      | nil => cases hv
      | cons other others =>
          obtain ⟨k', v'⟩ := other
          obtain ⟨hlt', hrest'⟩ := ascending_cons.1 hothers
          have hv' : some v' = ((k, v) :: members).lookup k' := by
            rw [h k', lookup_cons_eq, if_pos rfl]
          rcases lt_trichotomy k k' with hk | rfl | hk
          · rw [lookup_cons_of_lt hk hlt'] at hv
            cases hv
          · rw [lookup_cons_eq, if_pos rfl] at hv
            cases hv
            rw [ih hrest hrest' fun key => ?_]
            by_cases hkey : key = k
            · subst hkey
              rw [lookup_eq_none_of_lt hlt, lookup_eq_none_of_lt hlt']
            · have htail := h key
              rwa [lookup_cons_eq, if_neg hkey, lookup_cons_eq, if_neg hkey] at htail
          · rw [lookup_cons_of_lt hk hlt] at hv'
            cases hv'

theorem lookup_insert (key other : String) (value : α) (members : List (String × α)) :
    (insert key value members).lookup other =
      if other = key then some value else members.lookup other := by
  induction members with
  | nil => exact lookup_cons_eq other key value []
  | cons member members ih =>
      obtain ⟨k, v⟩ := member
      rw [insert]
      split
      · next hk =>
        subst hk
        rw [lookup_cons_eq, lookup_cons_eq]
        split <;> rfl
      · next hk =>
        split
        · exact lookup_cons_eq other key value _
        · rw [lookup_cons_eq, lookup_cons_eq, ih]
          by_cases hother : other = k
          · subst hother
            rw [if_pos rfl, if_pos rfl, if_neg (Ne.symm hk)]
          · rw [if_neg hother, if_neg hother]

theorem mem_of_mem_insert {member : String × α} (h : member ∈ insert key value members) :
    member = (key, value) ∨ member ∈ members := by
  induction members with
  | nil => exact .inl (List.mem_singleton.1 h)
  | cons head members ih =>
      rw [insert] at h
      split at h
      · exact (List.mem_cons.1 h).imp_right (List.mem_cons_of_mem head)
      · split at h
        · exact List.mem_cons.1 h
        · rcases List.mem_cons.1 h with rfl | hrest
          · exact .inr List.mem_cons_self
          · exact (ih hrest).imp_right (List.mem_cons_of_mem head)

theorem mem_insert_self (key : String) (value : α) (members : List (String × α)) :
    (key, value) ∈ insert key value members := by
  induction members with
  | nil => exact List.mem_cons_self
  | cons head members ih =>
      rw [insert]
      split
      · exact List.mem_cons_self
      · split
        · exact List.mem_cons_self
        · exact List.mem_cons_of_mem head ih

theorem mem_insert_of_ne {member : String × α} (hne : member.1 ≠ key) (h : member ∈ members) :
    member ∈ insert key value members := by
  induction members with
  | nil => cases h
  | cons head members ih =>
      rw [insert]
      split
      · next hk =>
        rcases List.mem_cons.1 h with rfl | hrest
        · exact absurd hk.symm hne
        · exact List.mem_cons_of_mem _ hrest
      · split
        · exact List.mem_cons_of_mem _ h
        · rcases List.mem_cons.1 h with rfl | hrest
          · exact List.mem_cons_self
          · exact List.mem_cons_of_mem head (ih hrest)

theorem ascending_insert (key : String) (value : α) (h : Ascending members) :
    Ascending (insert key value members) := by
  induction members with
  | nil => exact List.pairwise_singleton _ _
  | cons member members ih =>
      obtain ⟨k, v⟩ := member
      obtain ⟨hlt, hrest⟩ := ascending_cons.1 h
      rw [insert]
      split
      · next hk =>
        subst hk
        exact ascending_cons.2 ⟨hlt, hrest⟩
      · next hk =>
        split
        · next hkey =>
          refine ascending_cons.2 ⟨List.forall_mem_cons.2 ⟨hkey, fun m hm => ?_⟩, h⟩
          exact hkey.trans (hlt m hm)
        · next hkey =>
          have hgt : k < key := lt_of_le_of_ne (not_lt.1 hkey) (Ne.symm hk)
          refine ascending_cons.2 ⟨fun m hm => ?_, ih hrest⟩
          rcases mem_of_mem_insert hm with rfl | hmem
          · exact hgt
          · exact hlt m hmem

theorem sortMembers_concat (members : List (String × α)) (key : String) (value : α) :
    sortMembers (members ++ [(key, value)]) = insert key value (sortMembers members) :=
  List.foldl_concat _ _ _ _

theorem ascending_sortMembers (members : List (String × α)) : Ascending (sortMembers members) := by
  induction members using List.reverseRecOn with
  | nil => exact List.Pairwise.nil
  | append_singleton members member ih =>
      rw [sortMembers_concat]
      exact ascending_insert member.1 member.2 ih

theorem mem_of_mem_sortMembers {member : String × α} (h : member ∈ sortMembers members) :
    member ∈ members := by
  induction members using List.reverseRecOn with
  | nil => exact h
  | append_singleton members last ih =>
      rw [sortMembers_concat] at h
      rcases mem_of_mem_insert h with rfl | hrest
      · exact List.mem_append_right _ List.mem_cons_self
      · exact List.mem_append_left _ (ih hrest)

/-- Among members without repeated keys none is replaced. -/
theorem mem_sortMembers {member : String × α} (hnodup : (members.map Prod.fst).Nodup)
    (h : member ∈ members) : member ∈ sortMembers members := by
  induction members using List.reverseRecOn with
  | nil => exact h
  | append_singleton members last ih =>
      rw [List.map_append, List.nodup_append] at hnodup
      obtain ⟨hbefore, -, hfresh⟩ := hnodup
      rw [sortMembers_concat]
      rcases List.mem_append.1 h with hmem | hlast
      · have hne : member.1 ≠ last.1 :=
          hfresh member.1 (List.mem_map_of_mem hmem) last.1 List.mem_cons_self
        exact mem_insert_of_ne hne (ih hbefore hmem)
      · rw [List.mem_singleton.1 hlast]
        exact mem_insert_self last.1 last.2 _

end Members

/-- In every object of a value the keys are as asked. -/
inductive EachObject (p : List String → Prop) : Json → Prop
  | atom (a : Atom) : EachObject p (.atom a)
  | list {items : List Json} (hitems : ∀ x ∈ items, EachObject p x) : EachObject p (.list items)
  | object {members : List (String × Json)} (hkeys : p (members.map Prod.fst))
      (hmembers : ∀ member ∈ members, EachObject p member.2) : EachObject p (.object members)

/-- No object repeats a key. -/
def DistinctKeys (x : Json) : Prop :=
  x.EachObject List.Nodup

/-- Every object has its keys in strictly ascending order. -/
def InOrder (x : Json) : Prop :=
  x.EachObject (List.Pairwise (· < ·))

theorem EachObject.imp {p q : List String → Prop} (h : ∀ keys, p keys → q keys) {x : Json}
    (hx : x.EachObject p) : x.EachObject q := by
  induction hx with
  | atom a => exact .atom a
  | list hitems ih => exact .list ih
  | object hkeys hmembers ih => exact .object (h _ hkeys) ih

theorem InOrder.distinctKeys {x : Json} (h : x.InOrder) : x.DistinctKeys :=
  EachObject.imp (fun _ hkeys => hkeys.imp ne_of_lt) h

mutual

/-- A value with its objects made anew, from the innermost on. -/
def rebuild (object : List (String × Json) → Json) : Json → Json
  | .atom a => .atom a
  | .list items => .list (rebuildItems object items)
  | .object members => object (rebuildMembers object members)

/-- The items of a list, each rebuilt. -/
def rebuildItems (object : List (String × Json) → Json) : List Json → List Json
  | [] => []
  | x :: rest => rebuild object x :: rebuildItems object rest

/-- The members of an object, each value rebuilt. -/
def rebuildMembers (object : List (String × Json) → Json) :
    List (String × Json) → List (String × Json)
  | [] => []
  | (key, x) :: rest => (key, rebuild object x) :: rebuildMembers object rest

end

/-- A value with the members of every object sorted; of two with the same key the later one
stays. -/
def sorted (x : Json) : Json :=
  x.rebuild ofMembers

/-- The shape that refuses nothing and makes objects in the given way. -/
def gathering (object : List (String × Json) → Json) : Shape Json Json where
  root a := .ok (.atom a)
  atom a := .ok (.atom a)
  list _ := .ok .list
  object := object
  nest x := x

/-- The tree of a text as it is written. -/
def asWritten : Shape Json Json :=
  gathering .object

section Rebuild

variable (object : List (String × Json) → Json)

theorem rebuildItems_eq_map (items : List Json) :
    rebuildItems object items = items.map (rebuild object) := by
  induction items with
  | nil => rfl
  | cons x items ih => rw [rebuildItems, ih, List.map_cons]

theorem rebuildMembers_eq_map (members : List (String × Json)) :
    rebuildMembers object members =
      members.map fun member => (member.1, member.2.rebuild object) := by
  induction members with
  | nil => rfl
  | cons member members ih => rw [rebuildMembers, ih, List.map_cons]

variable {object}

theorem rebuild_self (x : Json) : x.rebuild .object = x := by
  induction x using Json.induction with
  | atom a => rfl
  | list items ih =>
      rw [rebuild, rebuildItems_eq_map, List.map_congr_left ih, List.map_id']
  | object members ih =>
      have hmembers : ∀ member ∈ members, (member.1, member.2.rebuild .object) = member :=
        fun member hmember => by rw [ih member hmember]
      rw [rebuild, rebuildMembers_eq_map, List.map_congr_left hmembers, List.map_id']

theorem sorted_object (members : List (String × Json)) :
    (Json.object members).sorted =
      .ofMembers (members.map fun member => (member.1, member.2.sorted)) := by
  rw [sorted, rebuild, rebuildMembers_eq_map]
  rfl

/-- Sorting leaves every object in order. -/
theorem inOrder_sorted (x : Json) : x.sorted.InOrder := by
  induction x using Json.induction with
  | atom a => exact .atom a
  | list items ih =>
      rw [sorted, rebuild, rebuildItems_eq_map]
      exact .list (List.forall_mem_map.2 ih)
  | object members ih =>
      rw [sorted_object]
      refine .object (ascending_sortMembers _) fun member hmember => ?_
      obtain ⟨written, hwritten, rfl⟩ := List.mem_map.1 (mem_of_mem_sortMembers hmember)
      exact ih written hwritten

variable {room : Nat}

theorem gathering_readItems {items : List Json}
    (h : ∀ x ∈ items, x.nesting ≤ room →
      (gathering object).readInner room x = .ok (x.rebuild object))
    (hroom : nestingItems items ≤ room) :
    (gathering object).readItems room items = .ok (rebuildItems object items) := by
  induction items with
  | nil => rfl
  | cons x items ih =>
      obtain ⟨hx, hitems⟩ := Nat.max_le.1 hroom
      have hrest := ih (fun y hy => h y (List.mem_cons_of_mem x hy)) hitems
      rw [Shape.readItems, h x List.mem_cons_self hx, ok_bind, hrest, ok_bind, rebuildItems]

theorem gathering_readMembers {members : List (String × Json)}
    (h : ∀ m ∈ members, m.2.nesting ≤ room →
      (gathering object).readInner room m.2 = .ok (m.2.rebuild object))
    (hroom : nestingMembers members ≤ room) :
    (gathering object).readMembers room members = .ok (rebuildMembers object members) := by
  induction members with
  | nil => rfl
  | cons member members ih =>
      obtain ⟨hx, hmembers⟩ := Nat.max_le.1 hroom
      have hrest := ih (fun m hm => h m (List.mem_cons_of_mem member hm)) hmembers
      rw [Shape.readMembers, h member List.mem_cons_self hx, ok_bind, hrest, ok_bind,
        rebuildMembers]

theorem gathering_readInner {x : Json} (hroom : x.nesting ≤ room) :
    (gathering object).readInner room x = .ok (x.rebuild object) := by
  induction x using Json.induction generalizing room with
  | atom a => rfl
  | list items ih =>
      cases room with
      | zero => cases hroom
      | succ room =>
          have hitems := gathering_readItems (fun x hx => ih x hx) (Nat.le_of_succ_le_succ hroom)
          rw [Shape.readInner, enclosed, hitems]
          rfl
  | object members ih =>
      cases room with
      | zero => cases hroom
      | succ room =>
          have hmembers :=
            gathering_readMembers (fun m hm => ih m hm) (Nat.le_of_succ_le_succ hroom)
          rw [Shape.readInner, enclosed, hmembers]
          rfl

/-- A text that is not nested too deep is gathered into its tree, rebuilt. -/
theorem gathering_readTree {tree : Json} (hdepth : tree.nesting ≤ depthLimit) :
    (gathering object).readTree tree = .ok (tree.rebuild object) := by
  cases tree with
  | atom a => rfl
  | list items =>
      have hitems : (gathering object).readItems 126 items = .ok (rebuildItems object items) :=
        gathering_readItems (fun _ _ => gathering_readInner) (Nat.le_of_succ_le_succ hdepth)
      rw [Shape.readTree, depthLimit, enclosed, hitems]
      rfl
  | object members =>
      have hmembers :
          (gathering object).readMembers 126 members = .ok (rebuildMembers object members) :=
        gathering_readMembers (fun _ _ => gathering_readInner) (Nat.le_of_succ_le_succ hdepth)
      rw [Shape.readTree, depthLimit, enclosed, hmembers]
      rfl

end Rebuild

/-- A text has a value exactly if it is the text of a tree that is not nested too deep. -/
theorem parse_eq_ok_iff {text : String} {v : Json} :
    parse text = .ok v ↔
      ∃ tree, lex text.toList = lexemes tree ∧ tree.nesting ≤ depthLimit ∧ v = tree.sorted := by
  constructor
  · intro h
    obtain ⟨tree, hlex⟩ := Shape.exists_lex_eq h
    rw [parse, Shape.read_of_lex anything hlex] at h
    have hdepth := Shape.nesting_le_of_readTree h
    exact ⟨tree, hlex, hdepth, Except.ok.inj (h.symm.trans (gathering_readTree hdepth))⟩
  · rintro ⟨tree, hlex, hdepth, rfl⟩
    rw [parse, Shape.read_of_lex anything hlex]
    exact gathering_readTree hdepth

/-- The value of a text has the keys of every object in order. -/
theorem inOrder_of_parse {text : String} {v : Json} (h : parse text = .ok v) : v.InOrder := by
  obtain ⟨tree, -, -, rfl⟩ := parse_eq_ok_iff.1 h
  exact inOrder_sorted tree

/-- The tree of a text as it is written is the one that its lexemes are of. -/
theorem eq_of_asWritten_read {text : List Char} {tree w : Json} (hlex : lex text = lexemes tree)
    (h : asWritten.read text = .ok w) : w = tree := by
  rw [Shape.read_of_lex asWritten hlex] at h
  have hdepth := Shape.nesting_le_of_readTree h
  rw [asWritten, gathering_readTree hdepth, rebuild_self] at h
  exact (Except.ok.inj h).symm

end ScopedCss.Json
