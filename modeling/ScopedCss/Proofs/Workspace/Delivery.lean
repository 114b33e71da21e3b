/-
# Collections under any calls

Whoever holds a handle to a collection may insert styles, take everything along, or clear it.  A
collection sees only the calls through handles to it (`callsTo`).  What it holds is told by these
alone (`Collection.pending`): the insertions since the last call that emptied it, for each id the
last one, in the order of the first ones.  An insertion is pending as long as no call supersedes it
(`Collection.mem_pending_iff`), and as a take supersedes everything, no insertion is delivered twice
(`Collection.delivers_iff_eq`).
-/

import Mathlib.Data.List.DropRight
import ScopedCss.Proofs.Table
import ScopedCss.Workspace.Run

namespace ScopedCss

namespace CollectionCall

/-- Whether a call empties a collection. -/
def drains : CollectionCall → Bool
  | .insert _ _ => false
  | .take | .clear => true

/-- Whether a call puts an end to what was inserted under an id before. -/
def Supersedes (id : String) : CollectionCall → Prop
  | .insert other _ => other = id
  | .take | .clear => True

end CollectionCall

/-- The calls as the collection of a name sees them, which does not notice those to others. -/
def callsTo {H : Type} (collectionOf : H → String) (name : String)
    (calls : List (H × CollectionCall)) : List (Option CollectionCall) :=
  calls.map fun entry => if collectionOf entry.1 = name then some entry.2 else none

/-- A style that was inserted, and the position of the call that did it. -/
structure Insertion where
  position : ℕ
  id : String
  css : String
deriving DecidableEq, Repr

/-- The insertion that a call is. -/
def Insertion.ofCall? : Option CollectionCall × ℕ → Option Insertion
  | (some (.insert id css), position) => some ⟨position, id, css⟩
  | _ => none

namespace Collection

/-- The insertions since the last call that emptied the collection. -/
def insertions (history : List (Option CollectionCall)) : List Insertion :=
  (history.zipIdx.rtakeWhile fun entry => !entry.1.any CollectionCall.drains).filterMap
    Insertion.ofCall?

/-- For each id inserted since the collection was emptied the last insertion, in the order of the
first ones. -/
def pendingTable (history : List (Option CollectionCall)) : Table Insertion :=
  Table.lasts ((insertions history).map fun x => (x.id, x))

/-- The insertions that a collection holds after some calls. -/
def pending (history : List (Option CollectionCall)) : List Insertion :=
  (pendingTable history).values

/-- Whether the call at a position takes an insertion along. -/
def Delivers (history : List (Option CollectionCall)) (n : ℕ) (x : Insertion) : Prop :=
  history[n]? = some (some .take) ∧ x ∈ pending (history.take n)

variable {history : List (Option CollectionCall)} {x : Insertion} {n : ℕ}

theorem insertions_concat (call : Option CollectionCall) :
    insertions (history ++ [call]) =
      if call.any CollectionCall.drains then []
      else insertions history ++ (Insertion.ofCall? (call, history.length)).toList := by
  rw [insertions, List.zipIdx_append, List.zipIdx_singleton, List.rtakeWhile_concat, Nat.zero_add]
  cases call.any CollectionCall.drains with
  | true => rfl
  | false =>
      rw [Bool.not_false, if_pos rfl, if_neg Bool.false_ne_true, List.filterMap_append, insertions]
      cases hcall : Insertion.ofCall? (call, history.length) <;> simp [hcall]

/-- A call to another collection changes nothing. -/
theorem pendingTable_unseen : pendingTable (history ++ [none]) = pendingTable history := by
  rw [pendingTable, insertions_concat, Option.any_none, if_neg Bool.false_ne_true,
    Insertion.ofCall?, Option.toList_none, List.append_nil, pendingTable]
  nofun

theorem pendingTable_drain {call : CollectionCall} (h : call.drains = true) :
    pendingTable (history ++ [some call]) = [] := by
  rw [pendingTable, insertions_concat, Option.any_some, if_pos h]
  rfl

theorem pendingTable_insert (id css : String) :
    pendingTable (history ++ [some (.insert id css)]) =
      (pendingTable history).put id ⟨history.length, id, css⟩ := by
  rw [pendingTable, insertions_concat, Option.any_some, CollectionCall.drains,
    if_neg Bool.false_ne_true, Insertion.ofCall?, Option.toList_some, List.map_append,
    List.map_singleton, Table.lasts_concat, pendingTable]

/-- An insertion is pending under its own id. -/
theorem id_eq_of_mem_pendingTable {entry : String × Insertion}
    (h : entry ∈ pendingTable history) : entry.2.id = entry.1 := by
  obtain ⟨y, -, rfl⟩ := List.mem_map.1 (Table.lasts_subset _ h)
  rfl

theorem pendingTable_eq :
    pendingTable history = (pending history).map fun x => (x.id, x) := by
  rw [pending, Table.values, List.map_map]
  refine (List.map_id _).symm.trans (List.map_congr_left fun entry hentry => ?_)
  exact Prod.ext (id_eq_of_mem_pendingTable hentry).symm rfl

theorem mem_pending : x ∈ pending history ↔ (x.id, x) ∈ pendingTable history := by
  rw [pendingTable_eq, List.mem_map]
  constructor
  · exact fun h => ⟨x, h, rfl⟩
  · rintro ⟨y, h, heq⟩
    obtain ⟨-, rfl⟩ := Prod.mk.inj heq
    exact h

/-- Whether a collection shows, whatever is asked of it, what is pending after some calls. -/
structure Shows (collection : Collection) (history : List (Option CollectionCall)) : Prop where
  text : collection.text = joinLines ((pending history).map Insertion.css)
  ids : collection.ids = (pending history).map Insertion.id
  length : collection.length = (pending history).length
  get? : ∀ id, collection.get? id =
    ((pending history).find? fun x => x.id == id).map Insertion.css

theorem shows_of_styles_eq {collection : Collection}
    (h : collection.styles = (pendingTable history).map (Prod.map id Insertion.css)) :
    collection.Shows history where
  text := by
    rw [Collection.text, h, pendingTable_eq, Table.values, List.map_map, List.map_map]
    rfl
  ids := by
    rw [Collection.ids, h, pendingTable_eq, Table.keys, List.map_map, List.map_map]
    rfl
  length := by
    rw [Collection.length, h, pendingTable_eq, List.length_map, List.length_map]
  get? id := by
    rw [Collection.get?, h, Table.get?_map, pendingTable_eq, Table.get?,
      Table.lookup_map_eq_find? Insertion.id, Option.map_id']

/-- Whether an insertion is among the first `n` calls, with none behind it there that supersedes
it. -/
def StandsUntil (history : List (Option CollectionCall)) (n : ℕ) (x : Insertion) : Prop :=
  x.position < n ∧ history[x.position]? = some (some (.insert x.id x.css)) ∧
    ∀ k call, x.position < k → k < n → history[k]? = some (some call) → ¬call.Supersedes x.id

/-- An insertion that stands is the last call or stood before it. -/
theorem standsUntil_succ :
    StandsUntil history (n + 1) x ↔
      x.position = n ∧ history[n]? = some (some (.insert x.id x.css)) ∨
        StandsUntil history n x ∧
          ∀ call, history[n]? = some (some call) → ¬call.Supersedes x.id := by
  constructor
  · rintro ⟨hlt, hcall, hkept⟩
    rcases Nat.lt_succ_iff_lt_or_eq.1 hlt with hlt | rfl
    · exact .inr ⟨⟨hlt, hcall, fun k call hk hkn => hkept k call hk (Nat.lt_succ_of_lt hkn)⟩,
        fun call => hkept n call hlt (Nat.lt_succ_self n)⟩
    · exact .inl ⟨rfl, hcall⟩
  · rintro (⟨rfl, hcall⟩ | ⟨⟨hlt, hcall, hkept⟩, hlast⟩)
    · exact ⟨Nat.lt_succ_self _, hcall, fun k _ hk hkn =>
        absurd hk (Nat.not_lt_of_le (Nat.le_of_lt_succ hkn))⟩
    · refine ⟨Nat.lt_succ_of_lt hlt, hcall, fun k call hk hkn => ?_⟩
      rcases Nat.lt_succ_iff_lt_or_eq.1 hkn with hkn | rfl
      · exact hkept k call hk hkn
      · exact hlast call

/-- The insertions pending are those that stand. -/
theorem mem_pending_take_iff : x ∈ pending (history.take n) ↔ StandsUntil history n x := by
  induction n with
  | zero => exact ⟨nofun, nofun⟩
  | succ n ih =>
      rw [standsUntil_succ, ← ih, List.take_add_one, mem_pending, mem_pending]
      match hcall : history[n]? with
      | none => simp
      | some none =>
          rw [Option.toList_some, pendingTable_unseen]
          simp
      | some (some .take) | some (some .clear) =>
          rw [Option.toList_some, pendingTable_drain rfl]
          simp [CollectionCall.Supersedes]
      | some (some (.insert id css)) =>
          have hn : (history.take n).length = n :=
            List.length_take_of_le (List.getElem?_eq_some_iff.1 hcall).1.le
          have hnodup : (pendingTable (history.take n)).keys.Nodup := Table.nodup_keys_lasts _
          rw [Option.toList_some, pendingTable_insert, hn, Table.mem_put_iff hnodup]
          obtain ⟨position, name, text⟩ := x
          simp only [Prod.mk.injEq, Insertion.mk.injEq, Option.some.injEq,
            CollectionCall.insert.injEq, CollectionCall.Supersedes]
          grind

/-- Two takes do not deliver the same insertion. -/
theorem Delivers.unique {m : ℕ} (h : Delivers history n x) (h' : Delivers history m x) :
    n = m := by
  have hle : ∀ {i j : ℕ}, Delivers history i x → Delivers history j x → j ≤ i := by
    intro i j hi hj
    by_contra hlt
    obtain ⟨-, -, hkept⟩ := mem_pending_take_iff.1 hj.2
    exact hkept i .take (mem_pending_take_iff.1 hi.2).1 (Nat.lt_of_not_le hlt) hi.1 trivial
  exact Nat.le_antisymm (hle h' h) (hle h h')

/-- An insertion that stands until a take is delivered by it and by no other. -/
theorem delivers_iff_eq (htake : history[n]? = some (some .take)) (h : StandsUntil history n x)
    (m : ℕ) : Delivers history m x ↔ m = n := by
  have hn : Delivers history n x := ⟨htake, mem_pending_take_iff.2 h⟩
  constructor
  · exact fun hm => hm.unique hn
  · rintro rfl
    exact hn

/-- An insertion that is superseded before a take comes is delivered by none. -/
theorem not_delivers {call : CollectionCall} (hcall : history[n]? = some (some call))
    (hlt : x.position < n) (hsupersedes : call.Supersedes x.id) (htake : call ≠ .take)
    (hbefore : ∀ k, x.position < k → k < n → history[k]? ≠ some (some .take)) (m : ℕ) :
    ¬Delivers history m x := by
  intro h
  obtain ⟨hm, -, hkept⟩ := mem_pending_take_iff.1 h.2
  rcases Nat.lt_trichotomy m n with hmn | rfl | hnm
  · exact hbefore m hm hmn h.1
  · rw [h.1] at hcall
    exact htake (Option.some.inj (Option.some.inj hcall)).symm
  · exact hkept n call hlt hnm hcall hsupersedes

end Collection

namespace Hosts

/-- A call touches no other collection. -/
theorem collection_callCollection_of_ne (hosts : Hosts) {name other : String} (h : other ≠ name)
    (call : CollectionCall) :
    (hosts.callCollection name call).1.collection other = hosts.collection other := by
  cases call <;> exact (hosts.collection_setCollection name other _).trans (if_neg h)

section Handles

variable {H : Type} (collectionOf : H → String) (calls : List (H × CollectionCall))

/-- A collection holds the CSS of what is pending, by id. -/
theorem styles_afterCollecting (name : String) :
    ((empty.afterCollecting collectionOf calls).collection name).styles =
      (Collection.pendingTable (callsTo collectionOf name calls)).map
        (Prod.map id Insertion.css) := by
  induction calls using List.reverseRecOn with
  | nil => rfl
  | append_singleton calls entry ih =>
      obtain ⟨handle, call⟩ := entry
      rw [afterCollecting, List.foldl_concat, ← afterCollecting, callsTo, List.map_append,
        ← callsTo, List.map_singleton]
      by_cases hname : collectionOf handle = name
      · rw [if_pos hname, hname]
        cases call with
        | insert id css =>
            rw [Collection.pendingTable_insert, Table.map_put, ← ih, callCollection,
              collection_setCollection, if_pos rfl, Collection.insert]
        | take | clear =>
            rw [Collection.pendingTable_drain rfl, callCollection, collection_setCollection,
              if_pos rfl]
            rfl
      · rw [if_neg hname, Collection.pendingTable_unseen, ← ih,
          collection_callCollection_of_ne _ (Ne.symm hname)]

theorem shows_afterCollecting (name : String) :
    ((empty.afterCollecting collectionOf calls).collection name).Shows
      (callsTo collectionOf name calls) :=
  Collection.shows_of_styles_eq (styles_afterCollecting collectionOf calls name)

theorem getElem?_answers (hosts : Hosts) (n : ℕ) :
    (answers collectionOf hosts calls)[n]? = calls[n]?.map fun entry =>
      ((hosts.afterCollecting collectionOf (calls.take n)).callCollection (collectionOf entry.1)
        entry.2).2 := by
  induction calls generalizing hosts n with
  | nil => rfl
  | cons entry calls ih =>
      obtain ⟨handle, call⟩ := entry
      cases n with
      | zero => rfl
      | succ n => exact ih _ n

/-- A take that a collection sees is one through a handle to it. -/
theorem exists_take_of_callsTo {name : String} {n : ℕ}
    (h : (callsTo collectionOf name calls)[n]? = some (some .take)) :
    ∃ handle, collectionOf handle = name ∧ calls[n]? = some (handle, .take) := by
  rw [callsTo, List.getElem?_map] at h
  obtain ⟨⟨handle, call⟩, hentry, hcall⟩ := Option.map_eq_some_iff.1 h
  by_cases hname : collectionOf handle = name
  · rw [if_pos hname] at hcall
    cases hcall
    exact ⟨handle, hname, hentry⟩
  · rw [if_neg hname] at hcall
    cases hcall

/-- A take answers with the text of what is pending and leaves nothing. -/
theorem answer_take {name : String} {n : ℕ}
    (h : (callsTo collectionOf name calls)[n]? = some (some .take)) :
    (answers collectionOf empty calls)[n]? =
        some (some (joinLines ((Collection.pending
          ((callsTo collectionOf name calls).take n)).map Insertion.css))) ∧
      (empty.afterCollecting collectionOf (calls.take (n + 1))).collection name = .empty := by
  obtain ⟨handle, rfl, hentry⟩ := exists_take_of_callsTo collectionOf calls h
  constructor
  · have hbefore := shows_afterCollecting collectionOf (calls.take n) (collectionOf handle)
    rw [callsTo, List.map_take, ← callsTo] at hbefore
    rw [getElem?_answers, hentry, Option.map_some, callCollection, Collection.take, hbefore.text]
  · rw [List.take_add_one, hentry, Option.toList_some, afterCollecting, List.foldl_concat,
      callCollection, collection_setCollection, if_pos rfl, Collection.take]

end Handles

/-- After any calls through any handles, all handles to a collection show what is pending of the
insertions made through them.  A take answers with the text of that and leaves nothing.  So an
insertion that stands until a take is delivered by it and by no other, and one that is overwritten
or cleared before a take comes is delivered by none. -/
theorem collection_delivers_once {H : Type} (collectionOf : H → String)
    (calls : List (H × CollectionCall)) (handle : H) :
    let history := callsTo collectionOf (collectionOf handle) calls
    (∀ clone, collectionOf clone = collectionOf handle →
        ((empty.afterCollecting collectionOf calls).collection (collectionOf clone)).Shows
          history) ∧
      (∀ n, history[n]? = some (some .take) →
        (answers collectionOf empty calls)[n]? =
            some (some (joinLines ((Collection.pending (history.take n)).map Insertion.css))) ∧
          (empty.afterCollecting collectionOf (calls.take (n + 1))).collection
            (collectionOf handle) = .empty) ∧
      ∀ x : Insertion,
        (∀ n, history[n]? = some (some .take) → Collection.StandsUntil history n x →
          ∀ m, Collection.Delivers history m x ↔ m = n) ∧
        ∀ n call, x.position < n → history[n]? = some (some call) → call.Supersedes x.id →
          call ≠ .take →
          (∀ k, x.position < k → k < n → history[k]? ≠ some (some .take)) →
          ∀ m, ¬Collection.Delivers history m x := by
  intro history
  refine ⟨fun clone hclone => ?_, fun n htake => answer_take collectionOf calls htake,
    fun x => ⟨fun n htake hstands => Collection.delivers_iff_eq htake hstands, ?_⟩⟩
  · rw [hclone]
    exact shows_afterCollecting collectionOf calls (collectionOf handle)
  · intro n call hlt hcall hsupersedes hother hbefore
    exact Collection.not_delivers hcall hlt hsupersedes hother hbefore

/-- Two clones of a handle and a handle to another collection: what stands when one clone takes is
delivered then, though the other clone inserts again under the same id, and what was overwritten
before is not delivered. -/
theorem collection_delivers_once_clones :
    let collectionOf : ℕ → String := fun handle => if handle < 2 then "s" else "t"
    let calls : List (ℕ × CollectionCall) :=
      [(0, .insert "a" "1"), (1, .insert "b" "2"), (2, .insert "b" "0"), (0, .insert "a" "3"),
        (1, .take), (0, .insert "b" "2"), (1, .insert "a" "4"), (0, .take)]
    let history := callsTo collectionOf "s" calls
    (answers collectionOf empty calls)[4]? = some (some "3\n2") ∧
      (answers collectionOf empty calls)[7]? = some (some "2\n4") ∧
      (∀ n, Collection.Delivers history n ⟨1, "b", "2"⟩ ↔ n = 4) ∧
      ∀ n, ¬Collection.Delivers history n ⟨0, "a", "1"⟩ := by
  intro collectionOf calls history
  obtain ⟨-, htakes, hdelivers⟩ := collection_delivers_once collectionOf calls 0
  refine ⟨?_, ?_, (hdelivers ⟨1, "b", "2"⟩).1 4 rfl ⟨by decide, rfl, ?_⟩,
    (hdelivers ⟨0, "a", "1"⟩).2 3 (.insert "a" "3") (by decide) rfl rfl (by decide) ?_⟩
  · exact (htakes 4 rfl).1.trans (by decide +kernel)
  · exact (htakes 7 rfl).1.trans (by decide +kernel)
  · intro k call hk hk4 hcall
    obtain rfl | rfl : k = 2 ∨ k = 3 := by simp only at hk; omega
    · cases hcall
    · cases hcall
      simp [CollectionCall.Supersedes]
  · intro k hk hk3 hcall
    obtain rfl | rfl : k = 1 ∨ k = 2 := by simp only at hk; omega
    · cases hcall
    · cases hcall

end Hosts

end ScopedCss
