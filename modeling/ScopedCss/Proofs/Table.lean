/-
# Tables of what was put in

A table without repeated keys is determined by its keys and their values (`Table.eq_of_get?_eq`).
So there is no choice in what a table holds after entries were put into it one after the other: the
keys in the order in which they first came, each with the value that came last (`Table.lasts`).
-/

import Mathlib.Data.List.Induction
import Mathlib.Data.List.Nodup
import ScopedCss.Table

namespace ScopedCss.Table

variable {α β : Type}

/-- The keys of some entries in the order of their first occurrence, each with the value of its last
occurrence. -/
def lasts (entries : List (String × α)) : Table α :=
  (entries.map Prod.fst).eraseDups.filterMap fun key =>
    (entries.reverse.lookup key).map (Prod.mk key)

/-- Put entries into a table, one after the other. -/
def putAll (table : Table α) (entries : List (String × α)) : Table α :=
  entries.foldl (fun grown entry => put grown entry.1 entry.2) table

/-- A key that is not in a table is put behind all others. -/
theorem put_eq_append {table : Table α} {key : String} (h : key ∉ keys table) (value : α) :
    put table key value = table ++ [(key, value)] := by
  induction table with
  | nil => rfl
  | cons head rest ih =>
      obtain ⟨k, v⟩ := head
      rw [keys, List.map_cons, List.mem_cons, not_or] at h
      rw [put, if_neg fun hk => h.1 hk.symm, ih h.2, List.cons_append]

theorem get?_eq_none_iff {table : Table α} {key : String} :
    get? table key = none ↔ key ∉ keys table := by
  induction table with
  | nil => simp
  | cons head rest ih =>
      obtain ⟨k, v⟩ := head
      rw [get?_cons, keys, List.map_cons, List.mem_cons, not_or, ← keys, ← ih]
      by_cases hk : key = k <;> simp [hk]

theorem nodup_keys_put {table : Table α} (h : (keys table).Nodup) (key : String) (value : α) :
    (keys (put table key value)).Nodup := by
  rw [keys_put]
  split
  · exact h
  · next hfresh =>
    have hnew : ∀ k ∈ keys table, ∀ k' ∈ [key], k ≠ k' := by
      intro k hk k' hk' heq
      rw [heq, List.mem_singleton.1 hk'] at hk
      exact hfresh hk
    exact List.nodup_append.2 ⟨h, List.nodup_singleton key, hnew⟩

theorem mem_of_mem_put {table : Table α} {key : String} {value : α} {entry : String × α}
    (h : entry ∈ put table key value) : entry = (key, value) ∨ entry ∈ table := by
  induction table with
  | nil => exact .inl (List.mem_singleton.1 h)
  | cons head rest ih =>
      obtain ⟨k, v⟩ := head
      rw [put] at h
      split at h
      · exact (List.mem_cons.1 h).imp_right (List.mem_cons_of_mem _)
      · rcases List.mem_cons.1 h with rfl | hrest
        · exact .inr List.mem_cons_self
        · exact (ih hrest).imp_right (List.mem_cons_of_mem _)

/-- In a table without repeated keys nothing else is left under the key that is put in. -/
theorem mem_put_iff {table : Table α} (h : (keys table).Nodup) {key : String} {value : α}
    {entry : String × α} :
    entry ∈ put table key value ↔ entry = (key, value) ∨ entry.1 ≠ key ∧ entry ∈ table := by
  induction table with
  | nil => simp [put]
  | cons head rest ih =>
      obtain ⟨k, v⟩ := head
      obtain ⟨hfresh, hrest⟩ := List.nodup_cons.1 h
      rw [put, List.mem_cons]
      split
      · next hk =>
        have hother : ∀ other ∈ rest, other.1 ≠ key := by
          rintro other hmem rfl
          exact hfresh (List.mem_map.2 ⟨other, hmem, hk.symm⟩)
        grind
      · next hk =>
        rw [List.mem_cons, ih hrest]
        grind

theorem mem_of_get? {table : Table α} {key : String} {value : α}
    (h : get? table key = some value) : (key, value) ∈ table := by
  obtain ⟨before, after, rfl, -⟩ := List.lookup_eq_some_iff.1 h
  exact List.mem_append_right before List.mem_cons_self

/-- Putting again what is there changes nothing. -/
theorem put_of_get? {table : Table α} {key : String} {value : α}
    (h : get? table key = some value) : put table key value = table := by
  induction table with
  | nil => cases h
  | cons head rest ih =>
      obtain ⟨k, v⟩ := head
      rw [get?_cons] at h
      by_cases hk : key = k
      · rw [if_pos hk] at h
        cases h
        rw [put, if_pos hk.symm, hk]
      · rw [if_neg hk] at h
        rw [put, if_neg fun heq => hk heq.symm, ih h]

/-- Values may be changed after a table is put together or before. -/
theorem map_put (f : α → β) (table : Table α) (key : String) (value : α) :
    (put table key value).map (Prod.map id f) = put (table.map (Prod.map id f)) key (f value) := by
  induction table with
  | nil => rfl
  | cons head rest ih =>
      obtain ⟨k, v⟩ := head
      rw [put, List.map_cons, Prod.map_apply, id_eq, put]
      by_cases hk : k = key
      · rw [if_pos hk, if_pos hk]
        rfl
      · rw [if_neg hk, if_neg hk, List.map_cons, ih]
        rfl

theorem get?_map (f : α → β) (table : Table α) (key : String) :
    get? (table.map (Prod.map id f)) key = (get? table key).map f := by
  induction table with
  | nil => rfl
  | cons head rest ih =>
      obtain ⟨k, v⟩ := head
      rw [List.map_cons, Prod.map_apply, id_eq, get?_cons, get?_cons, ih, apply_ite (Option.map f)]
      rfl

/-- Among entries that know their keys, the first one with a key is found by looking the key up. -/
theorem lookup_map_eq_find? (key : β → String) (f : β → α) (entries : List β) (id : String) :
    (entries.map fun entry => (key entry, f entry)).lookup id =
      (entries.find? fun entry => key entry == id).map f := by
  induction entries with
  | nil => rfl
  | cons entry entries ih =>
      rw [List.map_cons, List.lookup_cons, List.find?_cons, ih, BEq.comm]
      cases key entry == id <;> rfl

/-- A table without repeated keys is told by its keys and their values. -/
theorem eq_of_get?_eq {table other : Table α} (hnodup : (keys table).Nodup)
    (hkeys : keys table = keys other) (h : ∀ key, get? table key = get? other key) :
    table = other := by
  induction table generalizing other with
  | nil => exact (List.map_eq_nil_iff.1 hkeys.symm).symm
  | cons head rest ih =>
      obtain ⟨k, v⟩ := head
      cases other with
      | nil => cases hkeys
      | cons head' rest' =>
          obtain ⟨k', v'⟩ := head'
          obtain ⟨rfl, hrest⟩ := List.cons.inj hkeys
          obtain ⟨hfresh, hnodup⟩ := List.nodup_cons.1 hnodup
          have hv := h k
          rw [get?_cons, get?_cons, if_pos rfl, if_pos rfl] at hv
          cases hv
          rw [ih hnodup hrest fun key => ?_]
          by_cases hkey : key = k
          · subst hkey
            have hfresh' : key ∉ keys rest' := by rwa [keys, ← hrest]
            rw [get?_eq_none_iff.2 hfresh, get?_eq_none_iff.2 hfresh']
          · have htail := h key
            rwa [get?_cons, get?_cons, if_neg hkey, if_neg hkey] at htail

theorem putAll_concat (table : Table α) (entries : List (String × α)) (key : String) (value : α) :
    putAll table (entries ++ [(key, value)]) = put (putAll table entries) key value :=
  List.foldl_concat ..

/-- Entries whose keys are new and not repeated are put behind what a table has. -/
theorem putAll_eq_append {table entries : Table α} (hnodup : (keys entries).Nodup)
    (hnew : ∀ key ∈ keys entries, key ∉ keys table) : putAll table entries = table ++ entries := by
  induction entries generalizing table with
  | nil => exact (List.append_nil table).symm
  | cons entry entries ih =>
      rw [keys, List.map_cons, List.nodup_cons] at hnodup
      have hput : put table entry.1 entry.2 = table ++ [entry] :=
        put_eq_append (hnew entry.1 List.mem_cons_self) entry.2
      rw [putAll, List.foldl_cons, ← putAll, hput, List.append_cons table entry entries]
      refine ih hnodup.2 fun key hkey hmem => ?_
      rw [keys, List.map_append, List.mem_append, List.map_singleton, List.mem_singleton] at hmem
      rcases hmem with hbefore | rfl
      · exact hnew key (List.mem_cons_of_mem entry.1 hkey) hbefore
      · exact hnodup.1 hkey

theorem eraseDups_concat (keys : List String) (key : String) :
    (keys ++ [key]).eraseDups = if key ∈ keys then keys.eraseDups else keys.eraseDups ++ [key] := by
  rw [List.eraseDups_append, List.removeAll]
  by_cases h : key ∈ keys <;> simp [h, List.eraseDups_cons]

theorem keys_putAll (entries : List (String × α)) :
    keys (putAll [] entries) = (entries.map Prod.fst).eraseDups := by
  induction entries using List.reverseRecOn with
  | nil => rfl
  | append_singleton entries entry ih =>
      rw [putAll_concat, keys_put, ih, List.map_append, List.map_singleton, eraseDups_concat]
      simp only [List.mem_eraseDups]

theorem nodup_keys_putAll (entries : List (String × α)) : (keys (putAll [] entries)).Nodup := by
  induction entries using List.reverseRecOn with
  | nil => exact List.nodup_nil
  | append_singleton entries entry ih =>
      rw [putAll_concat]
      exact nodup_keys_put ih entry.1 entry.2

theorem get?_putAll (entries : List (String × α)) (key : String) :
    get? (putAll [] entries) key = entries.reverse.lookup key := by
  induction entries using List.reverseRecOn with
  | nil => rfl
  | append_singleton entries entry ih =>
      rw [putAll_concat, get?_put, ih, List.reverse_append]
      exact (get?_cons entry.1 key entry.2 entries.reverse).symm

section Lasts

variable {names : List String} {value? : String → Option α}

theorem get?_filterMap_mk (names : List String) (value? : String → Option α) (key : String) :
    get? (names.filterMap fun name => (value? name).map (Prod.mk name)) key =
      if key ∈ names then value? key else none := by
  induction names with
  | nil => rfl
  | cons name names ih =>
      rw [List.filterMap_cons]
      by_cases hkey : key = name
      · subst hkey
        cases hvalue : value? key with
        | none => simp [ih, hvalue]
        | some v => simp [get?_cons]
      · cases hvalue : value? name with
        | none => simp [ih, hkey]
        | some v => simp [get?_cons, ih, hkey]

theorem keys_filterMap_mk (h : ∀ name ∈ names, value? name ≠ none) :
    keys (names.filterMap fun name => (value? name).map (Prod.mk name)) = names := by
  induction names with
  | nil => rfl
  | cons name names ih =>
      obtain ⟨v, hv⟩ := Option.ne_none_iff_exists'.1 (h name List.mem_cons_self)
      have hrest := ih fun other hother => h other (List.mem_cons_of_mem name hother)
      rw [List.filterMap_cons, hv]
      exact congrArg (List.cons name) hrest

end Lasts

theorem lookup_reverse_ne_none {entries : List (String × α)} {key : String}
    (h : key ∈ entries.map Prod.fst) : entries.reverse.lookup key ≠ none := by
  rw [← get?_putAll, ne_eq, get?_eq_none_iff, keys_putAll, List.mem_eraseDups]
  exact not_not_intro h

theorem keys_lasts (entries : List (String × α)) :
    keys (lasts entries) = (entries.map Prod.fst).eraseDups :=
  keys_filterMap_mk fun _ h => lookup_reverse_ne_none (List.mem_eraseDups.1 h)

theorem get?_lasts (entries : List (String × α)) (key : String) :
    get? (lasts entries) key = entries.reverse.lookup key := by
  rw [lasts, get?_filterMap_mk]
  split
  · rfl
  · next h =>
    rw [← get?_putAll, get?_eq_none_iff.2]
    rwa [keys_putAll]

/-- Entries put into an empty table give each key where it first came the value that came last. -/
theorem putAll_eq_lasts (entries : List (String × α)) : putAll [] entries = lasts entries := by
  refine eq_of_get?_eq (nodup_keys_putAll entries) ?_ fun key => ?_
  · rw [keys_putAll, keys_lasts]
  · rw [get?_putAll, get?_lasts]

theorem nodup_keys_lasts (entries : List (String × α)) : (keys (lasts entries)).Nodup := by
  rw [← putAll_eq_lasts]
  exact nodup_keys_putAll entries

theorem lasts_subset (entries : List (String × α)) : lasts entries ⊆ entries := by
  intro entry h
  obtain ⟨key, -, hentry⟩ := List.mem_filterMap.1 h
  obtain ⟨value, hvalue, rfl⟩ := Option.map_eq_some_iff.1 hentry
  exact List.mem_reverse.1 (mem_of_get? hvalue)

theorem lasts_concat (entries : List (String × α)) (key : String) (value : α) :
    lasts (entries ++ [(key, value)]) = put (lasts entries) key value := by
  rw [← putAll_eq_lasts, putAll_concat, putAll_eq_lasts]

end ScopedCss.Table
