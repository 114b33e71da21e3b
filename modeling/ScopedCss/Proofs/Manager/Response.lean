/-
# Responses from a collection

A manager that collects outlives the responses for which its collection is drained.  A drain empties
the collection and leaves the registry as it is, so an id that was registered before the drain still
counts as injected, and its CSS is not collected again.

Turns come in any order.  Since the last drain the collection has gained the first styles of the
ids that were new to the registry (`Manager.gathers_serve`), no more and no less; so a response
carries the CSS of what it registers exactly where no earlier response has registered it
(`drained_carries_first_uses`).  It carries the CSS of everything it registers if the manager is
cleared along with each drain (`carries_all_of_clear`).
-/

import ScopedCss.Proofs.Manager.History
import ScopedCss.Proofs.Manager.Mirror
import ScopedCss.Workspace.Run

namespace ScopedCss

namespace Call

/-- Where it is not for a build, every call but a clearing registers a style. -/
theorem exists_registration? {c : Call} (h : c ≠ .clear) :
    ∃ r, c.registration? false = some r := by
  cases c with
  | clear => exact absurd rfl h
  | _ => exact ⟨_, rfl⟩

end Call

namespace Turn

/-- Whether a turn drains the collection of a name. -/
def drains (name : String) : Turn → Bool
  | .call _ => false
  | .take | .empty => true
  | .dropCollected => name = globalCollection

@[simp] theorem call?_call (c : Call) : (Turn.call c).call? = some c := rfl

theorem call?_of_drains {name : String} {t : Turn} (h : t.drains name = true) : t.call? = none := by
  cases t with
  | call c => cases h
  | _ => rfl

theorem eq_call_of_call? {t : Turn} {c : Call} (h : t.call? = some c) : t = .call c := by
  cases t with
  | call given => rw [Option.some.inj h]
  | take => cases h
  | empty => cases h
  | dropCollected => cases h

/-- What a turn registers. -/
def registration? (buildTime : Bool) (t : Turn) : Option Registration :=
  t.call?.bind (Call.registration? buildTime)

end Turn

namespace Manager

theorem serve_append (name : String) (m : Manager Place) (first second : List Turn) :
    m.serve name (first ++ second) = (m.serve name first).serve name second :=
  List.foldl_append

theorem serve_concat (name : String) (m : Manager Place) (turns : List Turn) (t : Turn) :
    m.serve name (turns ++ [t]) = (m.serve name turns).turn name t :=
  List.foldl_concat ..

end Manager

namespace Table

variable {α : Type}

theorem get?_filter_keys (p : String → Bool) (table : Table α) (key : String) :
    get? (table.filter fun entry => p entry.1) key = if p key then get? table key else none := by
  induction table with
  | nil => simp
  | cons head rest ih =>
      obtain ⟨k, v⟩ := head
      rw [List.filter_cons, get?_cons]
      by_cases hk : key = k
      · subst hk
        cases hp : p key <;> simp [ih, hp, get?_cons]
      · cases hp : p k <;> simp [ih, hk, get?_cons]

end Table

/-- The styles that registrations add to a registry with a history: the first of each new id. -/
def newStyles (known given : List Registration) : Table CompiledStyle :=
  (Table.firsts (given.map fun r => (r.id, r.style))).filter fun entry =>
    !(known.map Registration.id).contains entry.1

section Gains

variable {known given : List Registration}

theorem newStyles_concat (r : Registration) :
    newStyles known (given ++ [r]) =
      if r.id ∈ (known ++ given).map Registration.id then newStyles known given
      else newStyles known given ++ [(r.id, r.style)] := by
  rw [newStyles, Manager.firsts_registrations_concat, List.map_append]
  by_cases hgiven : r.id ∈ given.map Registration.id
  · rw [if_pos hgiven, if_pos (List.mem_append_right _ hgiven), newStyles]
  · rw [if_neg hgiven, List.filter_append, ← newStyles]
    by_cases hknown : r.id ∈ known.map Registration.id
    · have hcontains := List.contains_iff_mem.2 hknown
      rw [if_pos (List.mem_append_left _ hknown),
        List.filter_cons_of_neg (by simp only [hcontains]; decide)]
      exact List.append_nil _
    · have hnew : r.id ∉ known.map Registration.id ++ given.map Registration.id :=
        fun hmem => (List.mem_append.1 hmem).elim hknown hgiven
      have hcontains := Bool.eq_false_iff.2 (mt List.contains_iff_mem.1 hknown)
      rw [if_neg hnew, List.filter_cons_of_pos (by simp only [hcontains]; decide)]
      rfl

theorem nodup_keys_newStyles (known given : List Registration) :
    (newStyles known given).keys.Nodup :=
  (Table.nodup_keys_firsts _).sublist (List.filter_sublist.map Prod.fst)

theorem id_of_mem_newStyles {entry : String × CompiledStyle}
    (h : entry ∈ newStyles known given) : entry.2.id = entry.1 := by
  obtain ⟨r, -, rfl⟩ := List.mem_map.1 (Table.firsts_subset _ (List.mem_of_mem_filter h))
  rfl

theorem get?_newStyles (id : String) :
    (newStyles known given).get? id =
      if id ∈ known.map Registration.id then none
      else (given.find? fun r => r.id == id).map Registration.style := by
  rw [newStyles, Table.get?_filter_keys fun key => !(known.map Registration.id).contains key,
    Table.get?_firsts, Table.lookup_map_eq_find? Registration.id]
  by_cases hknown : id ∈ known.map Registration.id <;> simp [hknown]

end Gains

theorem infix_joinLines {line : String} {lines : List String} (h : line ∈ lines) :
    line.toList <:+: (joinLines lines).toList := by
  induction lines with
  | nil => cases h
  | cons head lines ih =>
      by_cases hnil : lines = []
      · subst hnil
        rw [List.mem_singleton.1 h]
        simp [joinLines]
      · rw [joinLines, String.intercalate_cons_of_ne_nil hnil, String.toList_append,
          String.toList_append]
        rcases List.mem_cons.1 h with rfl | hmem
        · exact ((List.prefix_append _ _).trans (List.prefix_append _ _)).isInfix
        · exact (ih hmem).trans (List.suffix_append _ _).isInfix

namespace Collection

theorem insertAll_concat (base : Collection) (styles : Table CompiledStyle) (id : String)
    (style : CompiledStyle) :
    base.insertAll (styles ++ [(id, style)]) =
      (base.insertAll styles).insert style.id style.css := by
  simp [insertAll, Table.values]

/-- A style is looked up among those recorded last. -/
theorem get?_insertAll (base : Collection) {styles : Table CompiledStyle}
    (hids : ∀ entry ∈ styles, entry.2.id = entry.1) (hnodup : styles.keys.Nodup) (id : String) :
    (base.insertAll styles).get? id =
      ((styles.get? id).map CompiledStyle.css).or (base.get? id) := by
  induction styles using List.reverseRecOn with
  | nil => rfl
  | append_singleton styles entry ih =>
      obtain ⟨key, style⟩ := entry
      have hid : style.id = key := hids (key, style) (List.mem_append_right _ List.mem_cons_self)
      rw [Table.keys, List.map_append, List.nodup_append] at hnodup
      have hearlier := ih (fun entry hentry => hids entry (List.mem_append_left _ hentry)) hnodup.1
      have hput : (base.insertAll (styles ++ [(key, style)])).get? id =
          if id = key then some style.css else (base.insertAll styles).get? id := by
        rw [insertAll_concat, hid]
        exact Table.get?_put _ key id style.css
      rw [hput, Table.get?_concat, hearlier]
      by_cases hkey : id = key
      · subst hkey
        have hnone : Table.get? styles id = none :=
          Table.get?_eq_none_iff.2 fun hmem => hnodup.2.2 id hmem id (List.mem_singleton.2 rfl) rfl
        simp [hnone]
      · simp [hkey]

/-- The text of a collection contains the CSS of each of its styles. -/
theorem infix_text {collection : Collection} {id css : String}
    (h : collection.get? id = some css) : css.toList <:+: collection.text.toList := by
  obtain ⟨before, after, hstyles, -⟩ := List.lookup_eq_some_iff.1 h
  refine infix_joinLines (List.mem_map.2 ⟨(id, css), ?_, rfl⟩)
  rw [hstyles]
  exact List.mem_append_right before List.mem_cons_self

end Collection

/-! ## What a collection gains -/

theorem Hosts.collection_setCollection_self (hosts : Hosts) (name : String)
    (collection : Collection) :
    (hosts.setCollection name collection).collection name = collection :=
  (hosts.collection_setCollection name name collection).trans (if_pos rfl)

namespace Manager

variable {name : String} {m : Manager Place}

/-- A registration is collected only if its id was not injected. -/
theorem collected_addStyle (href : m.target.ref = .collecting name) (r : Registration) :
    (m.addStyle r.id r.css r.metadata).value.target.ref = .collecting name ∧
      (m.addStyle r.id r.css r.metadata).value.collected name =
        if m.isInjected r.id then m.collected name
        else (m.collected name).insert r.id r.css := by
  by_cases hknown : m.isInjected r.id = true
  · rw [addStyle, if_pos hknown, if_pos hknown]
    exact ⟨href, rfl⟩
  · rw [addStyle, if_neg hknown, if_neg hknown]
    obtain ⟨options, styles, injected, snapshots, extracted, hosts, ref⟩ := m
    subst href
    exact ⟨rfl, Hosts.collection_setCollection_self _ _ _⟩

/-- What a call registers is all it adds to the collection; a clearing takes nothing from it. -/
theorem collected_call (href : m.target.ref = .collecting name) (c : Call) :
    (m.call c).value.1.target.ref = .collecting name ∧
      (m.call c).value.1.collected name =
        match c.registration? m.options.buildTime with
        | none => m.collected name
        | some r =>
          if m.isInjected r.id then m.collected name else (m.collected name).insert r.id r.css := by
  have hinput (input : StyleInput) :
      (m.css input).value.1.target.ref = .collecting name ∧
        (m.css input).value.1.collected name =
          match (if m.options.buildTime then none else some (Registration.ofInput input)) with
          | none => m.collected name
          | some r =>
            if m.isInjected r.id then m.collected name
            else (m.collected name).insert r.id r.css := by
    cases hbuild : m.options.buildTime with
    | true =>
        rw [css_of_buildTime hbuild]
        exact ⟨href, rfl⟩
    | false =>
        rw [css_of_not_buildTime hbuild]
        exact collected_addStyle href (.ofInput input)
  cases c with
  | addStyle id text metadata => exact collected_addStyle href ⟨id, text, metadata⟩
  | css input => exact hinput input
  | styled style => exact hinput (.style style)
  | applyStyles text metadata =>
      exact collected_addStyle href ⟨Digest.ofText text, text, metadata⟩
  | clear =>
      obtain ⟨options, styles, injected, snapshots, extracted, hosts, ref⟩ := m
      subst href
      exact ⟨rfl, Hosts.collection_setCollection_self _ _ _⟩

/-- A drain empties the collection. -/
theorem collected_of_drains (m : Manager Place) {t : Turn} (ht : t.drains name = true) :
    (m.turn name t).collected name = .empty := by
  have hset : (m.target.hosts.setCollection name .empty).collection name = .empty :=
    Hosts.collection_setCollection_self _ _ _
  cases t with
  | call c => cases ht
  | take => exact hset
  | empty => exact hset
  | dropCollected =>
      have hname : name = globalCollection := of_decide_eq_true ht
      subst hname
      exact hset

theorem turn_of_call? (name : String) (m : Manager Place) {t : Turn} {c : Call}
    (h : t.call? = some c) : m.turn name t = (m.call c).value.1 := by
  rw [Turn.eq_call_of_call? h, turn]

/-- A turn that is no call changes hosts only. -/
theorem exists_turn_eq_withHosts (name : String) (m : Manager Place) {t : Turn}
    (h : t.call? = none) : ∃ hosts, m.turn name t = m.withHosts hosts := by
  cases t with
  | call c => cases h
  | take => exact ⟨_, rfl⟩
  | empty => exact ⟨_, rfl⟩
  | dropCollected => exact ⟨_, rfl⟩

/-- What is no drain of a collection and no call leaves the collection alone. -/
theorem collected_turn_of_call?_eq_none (m : Manager Place) {t : Turn}
    (ht : t.drains name = false) (hcall : t.call? = none) :
    (m.turn name t).collected name = m.collected name := by
  cases t with
  | call c => cases hcall
  | take => cases ht
  | empty => cases ht
  | dropCollected =>
      have hname : name ≠ globalCollection := of_decide_eq_false ht
      exact (Hosts.collection_setCollection _ _ _ _).trans (if_neg hname)

theorem ref_turn (href : m.target.ref = .collecting name) (t : Turn) :
    (m.turn name t).target.ref = .collecting name := by
  cases t with
  | call c => exact (collected_call href c).1
  | take => exact href
  | empty => exact href
  | dropCollected => exact href

variable {options : Options} {registered known given : List Registration}
  {extracted : List (String × String)}

/-- A registry follows its history whatever happens around it. -/
theorem keeps_withHosts (h : Keeps options registered extracted m) (hosts : Hosts) :
    Keeps options registered extracted (m.withHosts hosts) :=
  ⟨h.options_eq, h.styles_eq, h.injected_eq, h.snapshots_eq, h.extracted_eq⟩

theorem keeps_serve (options : Options) (hosts : Hosts) (name : String) (turns : List Turn) :
    let m := (fresh options ⟨hosts, .collecting name⟩).serve name turns
    let calls := turns.filterMap Turn.call?
    Keeps options (registrations options calls) (extractions options calls) m ∧
      m.target.ref = .collecting name := by
  induction turns using List.reverseRecOn with
  | nil => exact ⟨keeps_fresh options _, rfl⟩
  | append_singleton turns t ih =>
      obtain ⟨hkeeps, href⟩ := ih
      rw [serve_concat, List.filterMap_append, filterMap_singleton_eq]
      refine ⟨?_, ref_turn href t⟩
      cases hcall : t.call? with
      | none =>
          obtain ⟨hosts', hturn⟩ := exists_turn_eq_withHosts name
            ((fresh options ⟨hosts, .collecting name⟩).serve name turns) hcall
          rw [hturn, Option.toList_none, List.append_nil]
          exact keeps_withHosts hkeeps hosts'
      | some c =>
          rw [turn_of_call? name _ hcall, Option.toList_some, registrations_concat,
            extractions_concat]
          exact keeps_call hkeeps c

/-- A manager with a known history has served since its collection was `base`: the collection has
gained the first styles of the ids that were new. -/
structure Gathers (options : Options) (name : String) (known given : List Registration)
    (base : Collection) (m : Manager Place) : Prop where
  keeps : ∃ extracted, Keeps options (known ++ given) extracted m
  ref_eq : m.target.ref = .collecting name
  collected_eq : m.collected name = base.insertAll (newStyles known given)

variable {base : Collection}

theorem gathers_start (h : Keeps options known extracted m)
    (href : m.target.ref = .collecting name) :
    Gathers options name known [] (m.collected name) m :=
  ⟨⟨extracted, by rwa [List.append_nil]⟩, href, rfl⟩

theorem gathers_call (h : Gathers options name known given base m) {c : Call}
    (hc : c.isClear = false) :
    Gathers options name known (given ++ (c.registration? options.buildTime).toList) base
      (m.call c).value.1 := by
  obtain ⟨extracted, hkeeps⟩ := h.keeps
  obtain ⟨href, hcollected⟩ := collected_call h.ref_eq c
  have hkept := keeps_call hkeeps c
  rw [hc, if_neg Bool.false_ne_true, List.append_assoc] at hkept
  refine ⟨⟨_, hkept⟩, href, ?_⟩
  rw [hcollected, hkeeps.options_eq, h.collected_eq]
  cases c.registration? options.buildTime with
  | none => simp
  | some r =>
      rw [Option.toList_some, newStyles_concat]
      by_cases hknown : r.id ∈ (known ++ given).map Registration.id
      · rw [if_pos hknown]
        exact if_pos (hkeeps.isInjected_iff.2 hknown)
      · rw [if_neg hknown, Collection.insertAll_concat]
        exact if_neg (mt hkeeps.isInjected_iff.1 hknown)

theorem gathers_turn (h : Gathers options name known given base m) {t : Turn}
    (ht : t.drains name = false) (hclear : t ≠ .call .clear) :
    Gathers options name known (given ++ (t.registration? options.buildTime).toList) base
      (m.turn name t) := by
  cases hcall : t.call? with
  | none =>
      obtain ⟨extracted, hkeeps⟩ := h.keeps
      obtain ⟨hosts, hturn⟩ := exists_turn_eq_withHosts name m hcall
      rw [Turn.registration?, hcall, Option.bind_none, Option.toList_none, List.append_nil]
      refine ⟨⟨extracted, ?_⟩, ref_turn h.ref_eq t, ?_⟩
      · rw [hturn]
        exact keeps_withHosts hkeeps hosts
      · rw [collected_turn_of_call?_eq_none m ht hcall, h.collected_eq]
  | some c =>
      have hc : c ≠ .clear := fun hc => hclear (hc ▸ Turn.eq_call_of_call? hcall)
      rw [turn_of_call? name m hcall, Turn.registration?, hcall, Option.bind_some]
      exact gathers_call h (Call.isClear_eq_false hc)

/-- Since the last drain a collection has gained the first styles of the ids that were new to the
registry, and nothing else. -/
theorem gathers_serve (options : Options) (hosts : Hosts) (name : String) (past : List Turn)
    {current : List Turn} (hcurrent : ∀ t ∈ current, t.drains name = false)
    (hclear : .call .clear ∉ current) :
    let start := (fresh options ⟨hosts, .collecting name⟩).serve name past
    Gathers options name (registrations options (past.filterMap Turn.call?))
      (current.filterMap (Turn.registration? options.buildTime)) (start.collected name)
      (start.serve name current) := by
  intro start
  obtain ⟨hkeeps, href⟩ := keeps_serve options hosts name past
  -- From the last turn backwards: each turn adds to what was given before it.
  induction current using List.reverseRecOn with
  | nil => exact gathers_start hkeeps href
  | append_singleton current t ih =>
      rw [List.forall_mem_append] at hcurrent
      rw [List.mem_append, not_or] at hclear
      rw [serve_concat, List.filterMap_append, filterMap_singleton_eq]
      exact gathers_turn (ih hcurrent.1 hclear.1) (hcurrent.2 t List.mem_cons_self)
        fun ht => hclear.2 (List.mem_singleton.2 ht.symm)

theorem exists_find? {id : String} (h : id ∈ given.map Registration.id) :
    ∃ first, given.find? (fun r => r.id == id) = some first := by
  obtain ⟨r, hr, rfl⟩ := List.mem_map.1 h
  exact Option.isSome_iff_exists.1 (List.find?_isSome.2 ⟨r, hr, beq_self_eq_true r.id⟩)

theorem Gathers.get?_collected (h : Gathers options name known given base m) (id : String) :
    (m.collected name).get? id =
      (if id ∈ known.map Registration.id then none
        else (given.find? fun r => r.id == id).map Registration.css).or (base.get? id) := by
  have hfound := base.get?_insertAll (fun _ => id_of_mem_newStyles)
    (nodup_keys_newStyles known given) id
  rw [h.collected_eq, hfound, get?_newStyles]
  split
  · rfl
  · rw [Option.map_map]
    rfl

theorem Gathers.mem_ids (h : Gathers options name known given base m) {id : String}
    (hid : id ∈ given.map Registration.id) :
    id ∈ (m.collected name).ids ↔ id ∉ known.map Registration.id ∨ id ∈ base.ids := by
  have hids (collection : Collection) : id ∈ collection.ids ↔ collection.get? id ≠ none := by
    rw [Ne, Collection.get?, Table.get?_eq_none_iff, not_not, Collection.ids]
  obtain ⟨first, hfirst⟩ := exists_find? hid
  rw [hids, hids, h.get?_collected, hfirst]
  by_cases hknown : id ∈ known.map Registration.id <;> simp [hknown]

/-- A collection that was drained holds what is new since then, as lines. -/
theorem Gathers.text_collected (h : Gathers options name known given .empty m) :
    (m.collected name).text = joinLines ((newStyles known given).values.map CompiledStyle.css) := by
  have hstyles : (m.collected name).styles =
      Collection.empty.styles ++ (newStyles known given).map (Prod.map id CompiledStyle.css) := by
    rw [h.collected_eq]
    exact Collection.styles_insertAll (fun _ => id_of_mem_newStyles)
      (nodup_keys_newStyles known given) fun _ _ hmem => nomatch hmem
  rw [Collection.text, hstyles, Collection.empty, List.nil_append, Table.values, Table.values,
    List.map_map, List.map_map]
  rfl

/-- A collection is empty behind a drain. -/
theorem collected_serve_of_drains (m : Manager Place) {turns : List Turn} (hne : turns ≠ [])
    (hlast : ∀ t ∈ turns.getLast?, t.drains name = true) :
    (m.serve name turns).collected name = .empty := by
  obtain ⟨before, drain, rfl⟩ := (List.eq_nil_or_concat' turns).resolve_left hne
  rw [serve_concat]
  exact collected_of_drains _ (hlast drain (by simp))

/-- A response carries the CSS of a style that it uses exactly if no earlier response has used the
style.  `past` ends with a drain, unless there was none, and `current` is what happened since.  What
the manager has registered before the last drain still counts as injected, so the next drain reads
the first styles of the other ids, and nothing else. -/
theorem drained_carries_first_uses {options : Options} (hruntime : options.buildTime = false)
    (hosts : Hosts) (name : String) {past current : List Turn}
    (hpast : ∀ t ∈ past.getLast?, t.drains name = true)
    (hcurrent : ∀ t ∈ current, t.drains name = false) (hclear : .call .clear ∉ current) :
    let m := (fresh options ⟨hosts, .collecting name⟩).serve name (past ++ current)
    let known := registrations options (past.filterMap Turn.call?)
    let given := current.filterMap (Turn.registration? false)
    (past ≠ [] → (m.collected name).text =
      joinLines ((newStyles known given).values.map CompiledStyle.css)) ∧
    ∀ c, .call c ∈ current → ∃ r, c.registration? false = some r ∧ m.isInjected r.id = true ∧
      (r.id ∈ (m.collected name).ids ↔ r.id ∉ known.map Registration.id) ∧
      (r.id ∉ known.map Registration.id → ∃ first,
        given.find? (fun other => other.id == r.id) = some first ∧
        (m.collected name).get? r.id = some first.css ∧
        first.css.toList <:+: (m.collected name).text.toList) := by
  intro m known given
  let start := (fresh options ⟨hosts, .collecting name⟩).serve name past
  have h : Gathers options name known given (start.collected name) m := by
    have hserved := gathers_serve options hosts name past hcurrent hclear
    rw [hruntime] at hserved
    rwa [show m = start.serve name current from serve_append name _ past current]
  have hbase (hne : past ≠ []) : start.collected name = .empty :=
    collected_serve_of_drains _ hne hpast
  refine ⟨fun hne => ?_, fun c hc => ?_⟩
  · rw [hbase hne] at h
    exact h.text_collected
  · obtain ⟨r, hr⟩ := Call.exists_registration? fun hcc => hclear (hcc ▸ hc)
    have hid : r.id ∈ given.map Registration.id :=
      List.mem_map_of_mem (List.mem_filterMap.2 ⟨.call c, hc, hr⟩)
    obtain ⟨extracted, hkeeps⟩ := h.keeps
    obtain ⟨first, hfirst⟩ := exists_find? hid
    have hinjected : m.isInjected r.id = true := by
      rw [hkeeps.isInjected_iff, List.map_append]
      exact List.mem_append_right _ hid
    refine ⟨r, hr, hinjected, ?_, fun hnew => ?_⟩
    · rw [h.mem_ids hid]
      refine ⟨fun hmem hknown => ?_, Or.inl⟩
      rcases hmem with hnew | hbefore
      · exact hnew hknown
      · have hne : past ≠ [] := by
          rintro rfl
          cases hknown
        rw [hbase hne] at hbefore
        cases hbefore
    · have hfound : (m.collected name).get? r.id = some first.css := by
        rw [h.get?_collected, if_neg hnew, hfirst]
        rfl
      exact ⟨first, hfirst, hfound, Collection.infix_text hfound⟩

/-- Of two styles that a second response uses, the first response has used one. -/
theorem drained_carries_first_uses_twice :
    let used : StyleInput := .template (.raw "color: red;")
    let other : StyleInput := .style (.property "margin" (.text "0") .empty)
    let past : List Turn := [.call (.css used), .take]
    let current : List Turn := [.call (.css used), .call (.css other)]
    let m := (fresh .production ⟨.empty, .collecting "c"⟩).serve "c" (past ++ current)
    Options.production.buildTime = false ∧ (∀ t ∈ past.getLast?, t.drains "c" = true) ∧
      (∀ t ∈ current, t.drains "c" = false) ∧ .call .clear ∉ current ∧
      m.isInjected used.id = true ∧ used.id ∉ (m.collected "c").ids ∧
      other.id ∈ (m.collected "c").ids ∧ (m.collected "c").text = other.compile.css := by
  intro used other past current m
  have hruntime : Options.production.buildTime = false := rfl
  have hpast : ∀ t ∈ past.getLast?, t.drains "c" = true := by simp [past, Turn.drains]
  have hcurrent : ∀ t ∈ current, t.drains "c" = false := by simp [current, Turn.drains]
  have hclear : .call .clear ∉ current := by simp [current]
  obtain ⟨htext, hall⟩ := drained_carries_first_uses hruntime .empty "c" hpast hcurrent hclear
  have hknown : registrations .production (past.filterMap Turn.call?) =
      [Registration.ofInput used] := rfl
  have hne : other.id ∉ [Registration.ofInput used].map Registration.id := by
    decide +kernel
  obtain ⟨r, hr, hinjected, hiff, -⟩ := hall (.css used) List.mem_cons_self
  obtain ⟨s, hs, -, hiff', -⟩ := hall (.css other) (List.mem_cons_of_mem _ List.mem_cons_self)
  cases hr
  cases hs
  rw [hknown] at hiff hiff' htext
  refine ⟨hruntime, hpast, hcurrent, hclear, hinjected, ?_, ?_, ?_⟩
  · exact fun h => hiff.1 h List.mem_cons_self
  · exact hiff'.2 hne
  · refine (htext (by simp [past])).trans ?_
    decide +kernel

/-- A style that two responses use is missing in the second one. -/
theorem used_again_not_carried :
    let input : StyleInput := .template (.raw "color: red;")
    let serving := fresh .development ⟨.empty, .collecting globalCollection⟩
    let first := serving.serve globalCollection [.call (.css input)]
    let second := first.serve globalCollection [.dropCollected, .call (.css input)]
    (serving.css input).value.2 = "zc-34gjkj" ∧
      first.target.hosts.collected = ".zc-34gjkj \x7b color: red; \x7d" ∧
      ((first.turn globalCollection .dropCollected).css input).value.2 = "zc-34gjkj" ∧
      second.isInjected "34gjkj" = true ∧
      "34gjkj" ∉ (second.collected globalCollection).ids ∧ second.target.hosts.collected = "" := by
  decide +kernel

/-- A manager that is cleared before a drain collects all that it registers after it. -/
theorem carries_all_of_clear (options : Options) (hosts : Hosts) (name : String) (past : List Turn)
    {drain : Turn} (hdrain : drain.drains name = true) {current : List Turn}
    (hcurrent : ∀ t ∈ current, t.drains name = false) (hclear : .call .clear ∉ current) {c : Call}
    (hc : .call c ∈ current) {r : Registration}
    (hr : c.registration? options.buildTime = some r) :
    let m := (fresh options ⟨hosts, .collecting name⟩).serve name
      (past ++ [.call .clear, drain] ++ current)
    r.id ∈ (m.collected name).ids := by
  intro m
  have h := gathers_serve options hosts name (past ++ [.call .clear, drain]) hcurrent hclear
  have hcalls : (past ++ [.call .clear, drain]).filterMap Turn.call? =
      past.filterMap Turn.call? ++ [.clear] := by
    simp [Turn.call?_of_drains hdrain]
  have hid : r.id ∈ (current.filterMap (Turn.registration? options.buildTime)).map
      Registration.id := List.mem_map_of_mem (List.mem_filterMap.2 ⟨.call c, hc, hr⟩)
  rw [hcalls, registrations_concat, if_pos (by rfl)] at h
  rw [show m = _ from serve_append name _ (past ++ [.call .clear, drain]) current, h.mem_ids hid]
  exact .inl List.not_mem_nil

end Manager

end ScopedCss
