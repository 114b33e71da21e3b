/-
# Registries and their histories

What a manager keeps can be told from the calls that were made, with no regard to its target.  The
registered styles are the first registrations of each id since the last clearing, in their order;
the snapshots are those of the same registrations, where snapshots are kept; and what is extracted
for a build are the first inputs of each id of the whole run.

`Table.firsts` is the table of the first values of each key.  `Manager.Keeps` says that a registry
is told by a history; one call appends to the history or starts it anew (`keeps_call`), and so it
goes for runs (`keeps_after`).  The main statement is `registry_tells_history`.
-/

import Mathlib.Data.List.DropRight
import ScopedCss.Proofs.Manager.Replay

namespace ScopedCss

namespace Table

variable {α β : Type}

/-- The first value of each key, in the order in which the keys appear. -/
def firsts : List (String × α) → Table α
  | [] => []
  | (key, value) :: rest => (key, value) :: (firsts rest).filter fun entry => entry.1 != key

/-- What is put last counts for a key that has no value before. -/
theorem get?_concat (table : Table α) (key other : String) (value : α) :
    get? (table ++ [(key, value)]) other =
      (get? table other).or (if other = key then some value else none) := by
  rw [get?, List.lookup_append]
  exact congrArg _ (get?_cons key other value [])

theorem putNew_of_mem {table : Table α} {key : String} (h : key ∈ keys table) (value : α) :
    putNew table key value = table := by
  unfold putNew
  split
  · rfl
  · next hnone => exact absurd h (get?_eq_none_iff.1 hnone)

theorem putNew_of_not_mem {table : Table α} {key : String} (h : key ∉ keys table) (value : α) :
    putNew table key value = table ++ [(key, value)] := by
  rw [putNew, get?_eq_none_iff.2 h, put_eq_append h]

theorem keys_putNew (table : Table α) (key : String) (value : α) :
    keys (putNew table key value) =
      if key ∈ keys table then keys table else keys table ++ [key] := by
  by_cases hmem : key ∈ keys table
  · rw [putNew_of_mem hmem, if_pos hmem]
  · rw [putNew_of_not_mem hmem, if_neg hmem]
    simp [keys]

theorem get?_putNew (table : Table α) (key other : String) (value : α) :
    get? (putNew table key value) other =
      (get? table other).or (if other = key then some value else none) := by
  unfold putNew
  split
  · next found hfound =>
    by_cases ho : other = key
    · subst ho
      simp [hfound]
    · simp [ho]
  · next hnone =>
    rw [get?_put]
    by_cases ho : other = key
    · subst ho
      simp [hnone]
    · simp [ho]

@[simp] theorem firsts_nil : firsts ([] : List (String × α)) = [] := rfl

theorem mem_keys_filter {table : Table α} {key other : String} :
    key ∈ keys (table.filter fun entry => entry.1 != other) ↔ key ∈ keys table ∧ key ≠ other := by
  simp only [keys, List.mem_map, List.mem_filter, bne_iff_ne]
  grind

theorem firsts_subset (items : List (String × α)) : firsts items ⊆ items := by
  induction items with
  | nil => exact List.Subset.refl []
  | cons head rest ih =>
      exact List.cons_subset_cons head fun entry hentry => ih (List.mem_of_mem_filter hentry)

theorem nodup_keys_firsts (items : List (String × α)) : (keys (firsts items)).Nodup := by
  induction items with
  | nil => exact List.nodup_nil
  | cons head rest ih =>
      obtain ⟨k, v⟩ := head
      refine List.nodup_cons.2 ⟨fun hmem => (mem_keys_filter.1 hmem).2 rfl, ?_⟩
      exact ih.sublist (List.filter_sublist.map Prod.fst)

/-- One more item counts only if its key is new. -/
theorem firsts_concat (items : List (String × α)) (key : String) (value : α) :
    firsts (items ++ [(key, value)]) = putNew (firsts items) key value := by
  induction items with
  | nil => rfl
  | cons head rest ih =>
      obtain ⟨k, v⟩ := head
      rw [List.cons_append, firsts, ih, firsts]
      by_cases hk : key = k
      · subst hk
        have hkept : key ∈ keys ((key, v) :: (firsts rest).filter fun entry => entry.1 != key) :=
          List.mem_cons_self
        rw [putNew_of_mem hkept]
        by_cases hmem : key ∈ keys (firsts rest)
        · rw [putNew_of_mem hmem]
        · rw [putNew_of_not_mem hmem, List.filter_append]
          simp
      · by_cases hmem : key ∈ keys (firsts rest)
        · have hkept : key ∈ keys ((k, v) :: (firsts rest).filter fun entry => entry.1 != k) :=
            List.mem_cons_of_mem k (mem_keys_filter.2 ⟨hmem, hk⟩)
          rw [putNew_of_mem hmem, putNew_of_mem hkept]
        · have hnew : key ∉ keys ((k, v) :: (firsts rest).filter fun entry => entry.1 != k) := by
            rw [keys, List.map_cons, List.mem_cons, not_or]
            exact ⟨hk, fun h => hmem (mem_keys_filter.1 h).1⟩
          rw [putNew_of_not_mem hmem, putNew_of_not_mem hnew, List.filter_append]
          simp [hk]

/-- The keys of first values are the keys without their repetitions. -/
theorem keys_firsts (items : List (String × α)) :
    keys (firsts items) = (items.map Prod.fst).eraseDups := by
  induction items using List.reverseRecOn with
  | nil => rfl
  | append_singleton items item ih =>
      obtain ⟨key, value⟩ := item
      rw [firsts_concat, keys_putNew, ih, List.map_append, List.map_singleton, eraseDups_concat]
      simp only [List.mem_eraseDups]

theorem mem_keys_firsts {items : List (String × α)} {key : String} :
    key ∈ keys (firsts items) ↔ key ∈ items.map Prod.fst := by
  rw [keys_firsts, List.mem_eraseDups]

theorem get?_firsts (items : List (String × α)) (key : String) :
    get? (firsts items) key = items.lookup key := by
  induction items using List.reverseRecOn with
  | nil => rfl
  | append_singleton items item ih =>
      obtain ⟨k, v⟩ := item
      have hlast : (items ++ [(k, v)]).lookup key = _ := get?_concat items k key v
      rw [firsts_concat, get?_putNew, ih, hlast, get?]

/-- First values can be computed from before or after they are picked. -/
theorem firsts_map (f : α → β) (items : List (String × α)) :
    firsts (items.map (Prod.map id f)) = (firsts items).map (Prod.map id f) := by
  induction items with
  | nil => rfl
  | cons head rest ih =>
      obtain ⟨k, v⟩ := head
      simp only [List.map_cons, Prod.map_apply, id_eq, firsts, ih, List.filter_map]
      rfl

end Table

/-! ## What calls register and extract -/

/-- What is handed in to register a style. -/
structure Registration where
  id : String
  css : String
  metadata : Option Json

namespace Registration

/-- The style that is registered, as the first of its id. -/
def style (r : Registration) : CompiledStyle :=
  ⟨r.id, r.css, Digest.checksum r.css, r.metadata⟩

/-- The snapshot of a registration. -/
def snapshot (r : Registration) : Snapshot :=
  ⟨r.css, r.metadata⟩

/-- The registration of an input, where it is not for a build. -/
def ofInput (input : StyleInput) : Registration :=
  ⟨input.compile.id, input.compile.css, none⟩

end Registration

/-- What a snapshot keeps of a style. -/
def CompiledStyle.snapshot (style : CompiledStyle) : Snapshot :=
  ⟨style.css, style.metadata⟩

namespace Call

/-- Whether a call is a clearing. -/
def isClear : Call → Bool
  | .clear => true
  | _ => false

theorem isClear_eq_false {c : Call} (h : c ≠ .clear) : c.isClear = false := by
  cases c with
  | clear => exact absurd rfl h
  | _ => rfl

/-- The input that a call is given. -/
def input? : Call → Option StyleInput
  | .css input => some input
  | .styled style => some (.style style)
  | _ => none

/-- What a call registers.  For a build no input is registered. -/
def registration? (buildTime : Bool) : Call → Option Registration
  | .addStyle id text metadata => some ⟨id, text, metadata⟩
  | .applyStyles text metadata => some ⟨Digest.ofText text, text, metadata⟩
  | c => c.input?.bind fun input => if buildTime then none else some (.ofInput input)

/-- The id and the CSS that a call extracts, which is for a build only. -/
def extraction? (buildTime : Bool) (c : Call) : Option (String × String) :=
  c.input?.bind fun input =>
    if buildTime then some (input.compile.id, input.compile.css) else none

end Call

namespace Manager

/-- What was registered since the last clearing, call by call. -/
def registrations (options : Options) (calls : List Call) : List Registration :=
  (calls.rtakeWhile fun c => !c.isClear).filterMap (Call.registration? options.buildTime)

/-- What was extracted, call by call. -/
def extractions (options : Options) (calls : List Call) : List (String × String) :=
  calls.filterMap (Call.extraction? options.buildTime)

variable {τ : Type}

/-- A registry that is told by what was registered and what was extracted: the first of each id
counts. -/
structure Keeps (options : Options) (registered : List Registration)
    (extracted : List (String × String)) (m : Manager τ) : Prop where
  options_eq : m.options = options
  styles_eq : m.styles = Table.firsts (registered.map fun r => (r.id, r.style))
  injected_eq : m.injected = m.styles.keys
  snapshots_eq : m.snapshots =
    if options.capturesDebug then Table.firsts (registered.map fun r => (r.id, r.snapshot)) else []
  extracted_eq : m.extracted = Table.firsts extracted

variable {options : Options} {registered : List Registration}
  {extracted : List (String × String)} {m : Manager τ}

theorem keeps_fresh (options : Options) (target : τ) : Keeps options [] [] (fresh options target) :=
  ⟨rfl, rfl, rfl, by simp [fresh], rfl⟩

/-- A registration counts only if its id is new. -/
theorem firsts_registrations_concat {α : Type} (f : Registration → α)
    (registered : List Registration) (r : Registration) :
    Table.firsts ((registered ++ [r]).map fun r => (r.id, f r)) =
      if r.id ∈ registered.map Registration.id then
        Table.firsts (registered.map fun r => (r.id, f r))
      else Table.firsts (registered.map fun r => (r.id, f r)) ++ [(r.id, f r)] := by
  have hkeys : r.id ∈ (Table.firsts (registered.map fun r => (r.id, f r))).keys ↔
      r.id ∈ registered.map Registration.id := by
    rw [Table.mem_keys_firsts, List.map_map]
    rfl
  rw [List.map_append, List.map_cons, List.map_nil, Table.firsts_concat]
  split
  · next hmem => exact Table.putNew_of_mem (hkeys.2 hmem) _
  · next hnew => exact Table.putNew_of_not_mem (mt hkeys.1 hnew) _

theorem Keeps.mem_keys (h : Keeps options registered extracted m) {id : String} :
    id ∈ m.styles.keys ↔ id ∈ registered.map Registration.id := by
  rw [h.styles_eq, Table.mem_keys_firsts, List.map_map]
  rfl

theorem Keeps.isInjected_iff (h : Keeps options registered extracted m) {id : String} :
    m.isInjected id = true ↔ id ∈ registered.map Registration.id := by
  rw [← h.mem_keys, ← h.injected_eq]
  simp [isInjected]

theorem Keeps.nodup_keys (h : Keeps options registered extracted m) : m.styles.keys.Nodup := by
  rw [h.styles_eq]
  exact Table.nodup_keys_firsts _

theorem Keeps.exists_of_mem (h : Keeps options registered extracted m)
    {entry : String × CompiledStyle} (hentry : entry ∈ m.styles) :
    ∃ r ∈ registered, entry = (r.id, r.style) := by
  rw [h.styles_eq] at hentry
  obtain ⟨r, hr, rfl⟩ := List.mem_map.1 (Table.firsts_subset _ hentry)
  exact ⟨r, hr, rfl⟩

variable [InjectionTarget τ]

/-- A registration is appended to the history, whether its id is new or not. -/
theorem keeps_addStyle (h : Keeps options registered extracted m) (r : Registration) :
    Keeps options (registered ++ [r]) extracted (m.addStyle r.id r.css r.metadata).value := by
  by_cases hknown : r.id ∈ registered.map Registration.id
  · rw [addStyle, if_pos (h.isInjected_iff.2 hknown)]
    refine ⟨h.options_eq, ?_, h.injected_eq, ?_, h.extracted_eq⟩
    · rw [firsts_registrations_concat, if_pos hknown, h.styles_eq]
    · rw [firsts_registrations_concat, if_pos hknown, h.snapshots_eq]
  · rw [addStyle, if_neg (mt h.isInjected_iff.1 hknown)]
    have hnew : r.id ∉ m.styles.keys := mt h.mem_keys.1 hknown
    refine ⟨h.options_eq, ?_, ?_, ?_, h.extracted_eq⟩
    · rw [firsts_registrations_concat, if_neg hknown, ← h.styles_eq]
      exact Table.put_eq_append hnew r.style
    · simp only [h.injected_eq, Table.keys_put, if_neg hnew]
    · rw [firsts_registrations_concat, if_neg hknown]
      by_cases hcaptures : options.capturesDebug = true
      · have hsnapshots := h.snapshots_eq
        rw [if_pos hcaptures] at hsnapshots ⊢
        have hnewer : r.id ∉ m.snapshots.keys := by
          rw [hsnapshots, Table.mem_keys_firsts, List.map_map]
          exact hknown
        rw [← hsnapshots, ← Table.put_eq_append hnewer]
        simp only [h.options_eq, hcaptures, if_true]
        rfl
      · simp [h.options_eq, h.snapshots_eq, hcaptures]

theorem css_of_buildTime (h : m.options.buildTime = true) (input : StyleInput) :
    (m.css input).value =
      ({ m with extracted := m.extracted.putNew input.compile.id input.compile.css },
        input.compile.id) := by
  simp only [css, h, if_true, Logged.value_bind, Logged.value_pure]

theorem css_of_not_buildTime (h : m.options.buildTime = false) (input : StyleInput) :
    (m.css input).value =
      ((m.addStyle input.compile.id input.compile.css none).value, input.compile.className) := by
  simp only [css, h, Bool.false_eq_true, if_false, Logged.value_bind, Logged.value_pure]

/-- An input is extracted for a build, and else registered. -/
theorem keeps_css (h : Keeps options registered extracted m) (input : StyleInput) :
    Keeps options
      (registered ++ (if options.buildTime then none else some (Registration.ofInput input)).toList)
      (extracted ++
        (if options.buildTime then some (input.compile.id, input.compile.css) else none).toList)
      (m.css input).value.1 := by
  cases hbuild : options.buildTime with
  | true =>
      rw [css_of_buildTime (h.options_eq ▸ hbuild)]
      simp only [if_true, Option.toList_none, Option.toList_some, List.append_nil]
      refine ⟨h.options_eq, h.styles_eq, h.injected_eq, h.snapshots_eq, ?_⟩
      rw [Table.firsts_concat, ← h.extracted_eq]
  | false =>
      rw [css_of_not_buildTime (h.options_eq ▸ hbuild)]
      simp only [Bool.false_eq_true, if_false, Option.toList_none, Option.toList_some,
        List.append_nil]
      exact keeps_addStyle h (.ofInput input)

/-- One call appends to the history of a registry, and a clearing starts it anew.  What was
extracted stays. -/
theorem keeps_call (h : Keeps options registered extracted m) (c : Call) :
    Keeps options
      (if c.isClear then [] else registered ++ (c.registration? options.buildTime).toList)
      (extracted ++ (c.extraction? options.buildTime).toList)
      (m.call c).value.1 := by
  have hadded (r : Registration) :
      Keeps options (registered ++ [r]) (extracted ++ [])
        (m.addStyle r.id r.css r.metadata).value := by
    rw [List.append_nil]
    exact keeps_addStyle h r
  cases c with
  | addStyle id text metadata => exact hadded ⟨id, text, metadata⟩
  | css input => exact keeps_css h input
  | styled style => exact keeps_css h (.style style)
  | applyStyles text metadata => exact hadded ⟨Digest.ofText text, text, metadata⟩
  | clear =>
      have hextracted : m.extracted = Table.firsts (extracted ++ []) := by
        rw [List.append_nil, h.extracted_eq]
      have hsnapshots : ([] : Table Snapshot) =
          if options.capturesDebug then Table.firsts [] else [] := by
        split <;> rfl
      exact ⟨h.options_eq, rfl, rfl, hsnapshots, hextracted⟩

theorem filterMap_singleton_eq {α β : Type} (f : α → Option β) (a : α) :
    [a].filterMap f = (f a).toList := by
  cases h : f a <;> simp [h]

theorem registrations_concat (options : Options) (calls : List Call) (c : Call) :
    registrations options (calls ++ [c]) =
      if c.isClear then []
      else registrations options calls ++ (c.registration? options.buildTime).toList := by
  unfold registrations
  split
  · next hclear => rw [List.rtakeWhile_concat_neg _ _ _ (by simp [hclear]), List.filterMap_nil]
  · next hclear =>
    rw [List.rtakeWhile_concat_pos _ _ _ (by simp [hclear]), List.filterMap_append,
      filterMap_singleton_eq]

/-- Without a clearing every registration counts. -/
theorem registrations_of_clear_not_mem (options : Options) {calls : List Call}
    (hclear : .clear ∉ calls) :
    registrations options calls = calls.filterMap (Call.registration? options.buildTime) := by
  have hkept : calls.rtakeWhile (fun c => !c.isClear) = calls := by
    rw [List.rtakeWhile_eq_self_iff]
    intro c hc
    rw [Call.isClear_eq_false fun heq => hclear (heq ▸ hc), Bool.not_false]
  rw [registrations, hkept]

theorem extractions_concat (options : Options) (calls : List Call) (c : Call) :
    extractions options (calls ++ [c]) =
      extractions options calls ++ (c.extraction? options.buildTime).toList := by
  rw [extractions, List.filterMap_append, filterMap_singleton_eq, extractions]

/-- The history of a run tells the registry that it leaves. -/
theorem keeps_after (options : Options) (target : τ) (calls : List Call) :
    Keeps options (registrations options calls) (extractions options calls)
      ((fresh options target).after calls) := by
  -- From the end of the run, since a clearing makes what was registered before it not count.
  induction calls using List.reverseRecOn with
  | nil => exact keeps_fresh options target
  | append_singleton calls c ih =>
      rw [after_append, registrations_concat, extractions_concat]
      exact keeps_call ih c

/-- Whatever the call, what it registers is added as a style. -/
theorem call_of_registration? {c : Call} {r : Registration}
    (hc : c.registration? m.options.buildTime = some r) :
    (m.call c).value.1 = (m.addStyle r.id r.css r.metadata).value := by
  have hinput (input : StyleInput)
      (hr : (if m.options.buildTime then none else some (Registration.ofInput input)) = some r) :
      (m.css input).value.1 = (m.addStyle r.id r.css r.metadata).value := by
    split at hr
    · cases hr
    · next hbuild =>
      cases hr
      rw [css_of_not_buildTime (Bool.eq_false_iff.2 hbuild)]
      rfl
  cases c with
  | addStyle id text metadata =>
      cases hc
      rfl
  | css input => exact hinput input hc
  | styled style => exact hinput (.style style) hc
  | applyStyles text metadata =>
      cases hc
      rfl
  | clear => cases hc

/-- A call that registers an id again changes nothing. -/
theorem call_of_isInjected {c : Call} {r : Registration}
    (hc : c.registration? m.options.buildTime = some r) (h : m.isInjected r.id = true) :
    (m.call c).value.1 = m := by
  rw [call_of_registration? hc, addStyle, if_pos h]

/-- The registry after a run, told by its history: exactly the registered ids are injected; they
stand in the order of their first registrations since the last clearing, none twice; each has the
style of that first registration, which later ones do not change; and snapshots are those of the
styles, where they are kept.  In development they are answered, and outside it there are none to be
had.  What was extracted for a build outlives clearings. -/
theorem registry_tells_history (options : Options) (target : τ) (calls : List Call) :
    let m := (fresh options target).after calls
    let history := registrations options calls
    (∀ id, m.isInjected id = (m.style? id).isSome) ∧
    m.styles.keys = (history.map Registration.id).eraseDups ∧ m.styles.keys.Nodup ∧
    (∀ id, m.style? id = (history.find? fun r => r.id == id).map Registration.style) ∧
    (∀ entry ∈ m.styles, entry.2.id = entry.1 ∧ entry.2.checksum = Digest.ofText entry.2.css) ∧
    (∀ c r, Call.registration? options.buildTime c = some r → m.isInjected r.id = true →
      (m.call c).value.1 = m) ∧
    m.snapshots =
      (if options.capturesDebug then m.styles.map (Prod.map id CompiledStyle.snapshot) else []) ∧
    (options.mode = .development →
      (∀ id, m.snapshot? id =
        if options.debugger then (m.style? id).map CompiledStyle.snapshot else none) ∧
      m.allSnapshots? = some m.snapshots) ∧
    (options.mode ≠ .development → (∀ id, m.snapshot? id = none) ∧ m.allSnapshots? = none) ∧
    m.extracted = Table.firsts (extractions options calls) := by
  intro m history
  have h : Keeps options history (extractions options calls) m := keeps_after options target calls
  have hsnapshots : m.snapshots =
      if options.capturesDebug then m.styles.map (Prod.map id CompiledStyle.snapshot) else [] := by
    rw [h.snapshots_eq, h.styles_eq, ← Table.firsts_map, List.map_map]
    rfl
  refine ⟨fun id => ?_, ?_, h.nodup_keys, fun id => ?_, fun entry hentry => ?_,
    fun c r hc hknown => ?_, hsnapshots, fun hmode => ⟨fun id => ?_, ?_⟩, fun hmode => ?_,
    h.extracted_eq⟩
  · rw [Bool.eq_iff_iff, h.isInjected_iff, ← h.mem_keys, style?, Option.isSome_iff_ne_none, Ne,
      Table.get?_eq_none_iff, not_not]
  · rw [h.styles_eq, Table.keys_firsts, List.map_map]
    rfl
  · rw [style?, h.styles_eq, Table.get?_firsts, Table.lookup_map_eq_find? Registration.id]
  · obtain ⟨r, -, rfl⟩ := h.exists_of_mem hentry
    exact ⟨rfl, rfl⟩
  · rw [← h.options_eq] at hc
    exact call_of_isInjected hc hknown
  · have hcaptures : options.capturesDebug = options.debugger := by
      simp [Options.capturesDebug, Mode.isDevelopment, hmode]
    rw [snapshot?, h.options_eq, hmode, if_pos (by rfl), hsnapshots, hcaptures, style?]
    cases options.debugger with
    | true => exact Table.get?_map CompiledStyle.snapshot m.styles id
    | false => rfl
  · rw [allSnapshots?, h.options_eq, hmode, if_pos (by rfl)]
  · simp [snapshot?, allSnapshots?, h.options_eq, Mode.isDevelopment, hmode]

/-- After a clearing one text is refused by the sheet, an id from before is registered first with
another text, and a third text comes too late. -/
theorem registry_tells_history_cleared :
    let calls : List Call := [.addStyle "a" ".a \x7b \x7d" none, .clear,
      .addStyle "b" "\x7b b \x7d" (some .null), .addStyle "a" ".b \x7b \x7d" none]
    let late : Call := .addStyle "b" ".c \x7b \x7d" none
    let state (options : Options) := (fresh options (LiveSheet.mk Sheet.empty)).after calls
    (state .development).styles.keys = ["b", "a"] ∧
      (state .development).style? "b" =
        some ⟨"b", "\x7b b \x7d", Digest.ofText "\x7b b \x7d", some .null⟩ ∧
      late.registration? false = some ⟨"b", ".c \x7b \x7d", none⟩ ∧
      (state .development).isInjected "b" = true ∧
      ((state .development).call late).value.1 = state .development ∧
      (state .development).snapshots.keys = ["b", "a"] ∧
      Options.development.mode = .development ∧
      (state .development).snapshot? "b" = some ⟨"\x7b b \x7d", some .null⟩ ∧
      (state .development).allSnapshots? = some (state .development).snapshots ∧
      Options.production.mode ≠ .development ∧ (state .production).snapshot? "b" = none := by
  intro calls late state
  obtain ⟨hinjected, hkeys, -, hstyles, -, hlate, hsnapshots, hanswers, -⟩ :=
    registry_tells_history .development (LiveSheet.mk Sheet.empty) calls
  obtain ⟨-, -, -, -, -, -, -, -, hnone, -⟩ :=
    registry_tells_history .production (LiveSheet.mk Sheet.empty) calls
  have hids : (state .development).styles.keys = ["b", "a"] := hkeys.trans (by cbv)
  have hstyle : (state .development).style? "b" = _ := (hstyles "b").trans rfl
  have hknown : (state .development).isInjected "b" = true := by
    rw [hinjected, hstyle]
    rfl
  have hsnapshotIds : (state .development).snapshots.keys = (state .development).styles.keys := by
    have hcaptures : Options.development.capturesDebug = true := by decide
    rw [hsnapshots, if_pos hcaptures, Table.keys, List.map_map]
    rfl
  have hsnapshot : (state .development).snapshot? "b" = _ := (hanswers rfl).1 "b"
  rw [hstyle] at hsnapshot
  have hmode : Options.production.mode ≠ .development := by decide
  exact ⟨hids, hstyle, rfl, hknown, hlate late _ rfl hknown, hsnapshotIds.trans hids, rfl,
    hsnapshot, (hanswers rfl).2, hmode, (hnone hmode).1 "b"⟩

end Manager

end ScopedCss
