/-
# Managers that share a collection

Several managers may fill one collection: those of several threads, or standing managers of which
each is dropped before the next one is made.  A manager knows only the ids that it injected itself,
so the collection is given the same id again and again, in every order.  As long as an id always
comes with the same CSS, the collection is what one manager makes of all the calls
(`shared_eq_single`).

`Collection.ofRegistered` is the collection of the first CSS of each id.  Inserting an id again
with its CSS leaves it as it is (`insert_ofRegistered`), and a manager that passes an id over has
put it there before.  This is the invariant, `Workspace.Shares`; it does not mind that managers are
made or dropped on the way.
-/

import ScopedCss.Proofs.Manager.Extract
import ScopedCss.Proofs.Manager.Response
import ScopedCss.Proofs.Workspace.Run

namespace ScopedCss

/-- Registrations of the same id have the same CSS. -/
def Registration.Consistent (registered : List Registration) : Prop :=
  ∀ r ∈ registered, ∀ q ∈ registered, r.id = q.id → r.css = q.css

namespace Collection

/-- The first CSS of each id that was registered. -/
def ofRegistered (registered : List Registration) : Collection :=
  ⟨Table.firsts (registered.map fun r => (r.id, r.css))⟩

variable {registered more : List Registration} {r : Registration}

theorem mem_ids_ofRegistered {id : String} :
    id ∈ (ofRegistered registered).ids ↔ id ∈ registered.map Registration.id := by
  rw [ids, ofRegistered, Table.mem_keys_firsts, List.map_map]
  rfl

theorem ofRegistered_concat_of_mem (h : r.id ∈ registered.map Registration.id) :
    ofRegistered (registered ++ [r]) = ofRegistered registered := by
  rw [ofRegistered, Manager.firsts_registrations_concat, if_pos h, ofRegistered]

/-- Whether its id is new or not, a registration that goes with the others can be inserted. -/
theorem insert_ofRegistered (h : Registration.Consistent (registered ++ [r])) :
    (ofRegistered registered).insert r.id r.css = ofRegistered (registered ++ [r]) := by
  by_cases hmem : r.id ∈ (ofRegistered registered).ids
  · rw [ofRegistered_concat_of_mem (mem_ids_ofRegistered.1 hmem)]
    have hfound : Table.get? (ofRegistered registered).styles r.id ≠ none := fun hnone =>
      Table.get?_eq_none_iff.1 hnone hmem
    obtain ⟨css, hcss⟩ := Option.ne_none_iff_exists'.1 hfound
    obtain ⟨q, hq, hentry⟩ := List.mem_map.1 (Table.firsts_subset _ (Table.mem_of_get? hcss))
    obtain ⟨hid, rfl⟩ := Prod.mk.inj hentry
    have hsame : q.css = r.css :=
      h q (List.mem_append_left _ hq) r (List.mem_append_right _ List.mem_cons_self) hid
    rw [insert, Table.put_of_get? (hsame ▸ hcss)]
  · have hnew : r.id ∉ registered.map Registration.id := mt mem_ids_ofRegistered.2 hmem
    rw [insert, Table.put_eq_append hmem, ofRegistered, ofRegistered,
      Manager.firsts_registrations_concat, if_neg hnew]

/-- Ids that were registered before add nothing. -/
theorem ofRegistered_append_of_subset
    (h : more.map Registration.id ⊆ registered.map Registration.id) :
    ofRegistered (registered ++ more) = ofRegistered registered := by
  induction more generalizing registered with
  | nil => rw [List.append_nil]
  | cons r more ih =>
      obtain ⟨hr, hmore⟩ := List.cons_subset.1 h
      rw [List.append_cons, ih, ofRegistered_concat_of_mem hr]
      rw [List.map_append]
      exact List.Subset.trans hmore (List.subset_append_left _ _)

theorem count_ids_ofRegistered (h : r ∈ registered) :
    (ofRegistered registered).ids.count r.id = 1 :=
  List.count_eq_one_of_mem (Table.nodup_keys_firsts _)
    (mem_ids_ofRegistered.2 (List.mem_map_of_mem h))

end Collection

namespace Manager

/-- What a manager collects by itself, if it is not cleared. -/
theorem collection_after_fresh {options : Options} (hruntime : options.buildTime = false)
    {calls : List Call} (hclear : .clear ∉ calls) :
    ((fresh options (Sink.mk .empty)).after calls).target.collection =
      .ofRegistered (calls.filterMap (Call.registration? false)) := by
  have h := keeps_after options (Sink.mk .empty) calls
  have hstyles := collection_after options hclear
  rw [registrations_of_clear_not_mem options hclear, hruntime] at h
  simp only [h.styles_eq, ← Table.firsts_map, List.map_map] at hstyles
  exact congrArg Collection.mk hstyles

/-- A call that registers an id injects no other. -/
theorem injected_call_subset {τ : Type} [InjectionTarget τ] {m : Manager τ} {c : Call}
    {r : Registration} (hc : c.registration? m.options.buildTime = some r) :
    (m.call c).value.1.injected ⊆ m.injected ++ [r.id] := by
  rw [call_of_registration? hc, addStyle]
  split
  · exact List.subset_append_left _ _
  · exact List.Subset.refl _

end Manager

/-- What a step registers at run time. -/
def Step.registration? (s : Step) : Option Registration :=
  s.call?.bind (Call.registration? false)

namespace Workspace

/-- A step by which a manager at run time registers a style for a collection, or a manager is made
or dropped. -/
def collects (w : Workspace) (name : String) : Step → Bool
  | .call callee c => !c.isClear &&
    (w.manager? callee).any fun m => m.target = .collecting name && !m.options.buildTime
  | .take _ | .empty _ | .dropCollected => false
  | .install _ _ _ | .establish _ | .reset => true

/-- A run of such steps. -/
def allCollect (name : String) : Workspace → List Step → Bool
  | _, [] => true
  | w, s :: steps => w.collects name s && (w.step s).1.allCollect name steps

/-- A collection holds the first CSS of each registered id, and the managers that fill it have
injected no others. -/
structure Shares (name : String) (registered : List Registration) (w : Workspace) : Prop where
  collection_eq : w.hosts.collection name = .ofRegistered registered
  injected_subset (callee : Callee) (m : Manager TargetRef) (hm : w.manager? callee = some m)
    (htarget : m.target = .collecting name) : m.injected ⊆ registered.map Registration.id

variable {w v : Workspace} {name : String} {registered : List Registration} {callee : Callee}
  {m : Manager TargetRef} {c : Call}

theorem exists_of_collects (h : w.collects name (.call callee c) = true) :
    c.isClear = false ∧ ∃ m, w.manager? callee = some m ∧ m.target = .collecting name ∧
      m.options.buildTime = false := by
  rw [collects, Bool.and_eq_true, Bool.not_eq_true', Option.any_eq_true] at h
  obtain ⟨hclear, m, hm, hcollecting⟩ := h
  rw [Bool.and_eq_true, decide_eq_true_iff, Bool.not_eq_true'] at hcollecting
  exact ⟨hclear, m, hm, hcollecting⟩

/-- The manager that a call leaves fills the same collection. -/
theorem manager?_step_call (hm : w.manager? callee = some m)
    (htarget : m.target = .collecting name) (c : Call) :
    ∃ n, (w.step (.call callee c)).1.manager? callee = some n ∧ n.target = .collecting name ∧
      n.options = m.options := by
  rw [step_call hm, manager?_setManager, if_pos rfl]
  exact ⟨_, rfl, (Manager.collected_call (m := w.placed m) htarget c).1,
    Manager.options_call (w.placed m) c⟩

/-- A manager can go on as long as it is not cleared. -/
theorem allCollect_calls (hm : w.manager? callee = some m) (htarget : m.target = .collecting name)
    (hruntime : m.options.buildTime = false) {calls : List Call} (hclear : .clear ∉ calls) :
    w.allCollect name (calls.map (.call callee)) = true := by
  induction calls generalizing w m with
  | nil => rfl
  | cons c calls ih =>
      rw [List.mem_cons, not_or] at hclear
      obtain ⟨n, hn, hntarget, hnoptions⟩ := manager?_step_call hm htarget c
      have hfirst : w.collects name (.call callee c) = true := by
        simp [collects, hm, htarget, hruntime, Call.isClear_eq_false (Ne.symm hclear.1)]
      rw [List.map_cons, allCollect, hfirst, Bool.true_and]
      exact ih hn hntarget (hnoptions ▸ hruntime) hclear.2

theorem clear_not_mem_of_allCollect {steps : List Step} (h : w.allCollect name steps = true) :
    .clear ∉ steps.filterMap Step.call? := by
  induction steps generalizing w with
  | nil => exact List.not_mem_nil
  | cons s steps ih =>
      rw [allCollect, Bool.and_eq_true] at h
      intro hmem
      obtain ⟨t, ht, hcall⟩ := List.mem_filterMap.1 hmem
      rcases List.mem_cons.1 ht with rfl | ht
      · cases t with
        | call callee c =>
            cases hcall
            cases (exists_of_collects h.1).1
        | _ => cases hcall
      · exact ih h.2 (List.mem_filterMap.2 ⟨t, ht, hcall⟩)

/-- A manager that is made has injected nothing yet. -/
theorem shares_made (h : Shares name registered w) (hhosts : v.hosts = w.hosts) {who : Callee}
    {options : Options} {ref : TargetRef}
    (hmanagers : ∀ callee, v.manager? callee =
      if callee = who then some (.fresh options ref) else w.manager? callee) :
    Shares name registered v := by
  refine ⟨hhosts ▸ h.collection_eq, fun callee m hm htarget => ?_⟩
  rw [hmanagers] at hm
  split at hm
  · cases hm
    exact List.nil_subset _
  · exact h.injected_subset callee m hm htarget

theorem shares_call (h : Shares name registered w) (hm : w.manager? callee = some m)
    (htarget : m.target = .collecting name) {r : Registration}
    (hc : c.registration? m.options.buildTime = some r)
    (hconsistent : Registration.Consistent (registered ++ [r])) :
    Shares name (registered ++ [r]) (w.step (.call callee c)).1 := by
  have hcollected := (Manager.collected_call (m := w.placed m) htarget c).2
  have hregistration : c.registration? (w.placed m).options.buildTime = some r := hc
  have hgiven : (w.placed m).collected name = .ofRegistered registered := h.collection_eq
  simp only [hregistration, hgiven] at hcollected
  rw [step_call hm]
  refine ⟨?_, fun other n hn hother => ?_⟩
  · rw [hosts_setManager]
    refine Eq.trans hcollected ?_
    -- An id that is passed over was put in before; one that is not may be there from others.
    split
    · next hknown =>
      have hinjected : r.id ∈ m.injected := List.contains_iff_mem.1 hknown
      have hmem := h.injected_subset callee m hm htarget hinjected
      rw [Collection.ofRegistered_concat_of_mem hmem]
    · rw [Collection.insert_ofRegistered hconsistent]
  · rw [List.map_append]
    -- The manager called has injected one id more, the others none.
    rw [manager?_setManager] at hn
    split at hn
    · cases hn
      have hinjected : m.injected ⊆ registered.map Registration.id ++ [r.id] :=
        List.Subset.trans (h.injected_subset callee m hm htarget) (List.subset_append_left _ _)
      exact List.Subset.trans (Manager.injected_call_subset hregistration)
        (List.append_subset.2 ⟨hinjected, List.subset_append_right _ _⟩)
    · rw [manager?_withHosts] at hn
      exact List.Subset.trans (h.injected_subset other n hn hother) (List.subset_append_left _ _)

/-- A step adds what it registers. -/
theorem shares_step (h : Shares name registered w) {s : Step} (hs : w.collects name s = true)
    (hconsistent : Registration.Consistent (registered ++ s.registration?.toList)) :
    Shares name (registered ++ s.registration?.toList) (w.step s).1 := by
  have hmade {v : Workspace} (hshares : Shares name registered v) :
      Shares name (registered ++ []) v := by
    rwa [List.append_nil]
  cases s with
  | call callee c =>
      obtain ⟨hclear, m, hm, htarget, hruntime⟩ := exists_of_collects hs
      obtain ⟨r, hr⟩ := Call.exists_registration? (c := c) fun heq => by
        rw [heq] at hclear
        cases hclear
      have hregistration : (Step.call callee c).registration? = some r := hr
      rw [hregistration] at hconsistent ⊢
      exact shares_call h hm htarget (hruntime ▸ hr) hconsistent
  | take collection => cases hs
  | empty collection => cases hs
  | dropCollected => cases hs
  | install manager options ref =>
      exact hmade (shares_made h rfl (w.manager?_install manager options ref))
  | establish setup => exact hmade (shares_made h rfl (w.manager?_establish setup))
  | reset => exact hmade (shares_made h rfl w.manager?_reset)

/-- After a run the collection holds what was registered in it, whoever registered it. -/
theorem shares_after (h : Shares name registered w) {steps : List Step}
    (hsteps : w.allCollect name steps = true)
    (hconsistent : Registration.Consistent (registered ++ steps.filterMap Step.registration?)) :
    Shares name (registered ++ steps.filterMap Step.registration?) (w.after steps) := by
  -- From the first step on, as what is collected then depends on what was registered before.
  induction steps generalizing w registered with
  | nil =>
      rw [List.filterMap_nil, List.append_nil]
      exact h
  | cons s steps ih =>
      rw [allCollect, Bool.and_eq_true] at hsteps
      have hsplit : registered ++ (s :: steps).filterMap Step.registration? =
          (registered ++ s.registration?.toList) ++ steps.filterMap Step.registration? := by
        rw [← List.singleton_append, List.filterMap_append, Manager.filterMap_singleton_eq,
          List.append_assoc]
      rw [hsplit] at hconsistent ⊢
      have hfirst : Registration.Consistent (registered ++ s.registration?.toList) :=
        fun r hr q hq => hconsistent r (List.mem_append_left _ hr) q (List.mem_append_left _ hq)
      exact ih (shares_step h hsteps.1 hfirst) hsteps.2 hconsistent

/-- A manager that registers what was registered before changes nothing. -/
theorem collection_after_again (h : Shares name registered w) (hm : w.manager? callee = some m)
    (htarget : m.target = .collecting name) (hruntime : m.options.buildTime = false)
    (hconsistent : Registration.Consistent registered) {again : List Call}
    (hclear : .clear ∉ again)
    (hagain : again.filterMap (Call.registration? false) ⊆ registered) :
    (w.after (again.map (.call callee))).hosts.collection name = w.hosts.collection name := by
  have hgiven : (again.map (.call callee)).filterMap Step.registration? =
      again.filterMap (Call.registration? false) := by
    rw [List.filterMap_map]
    rfl
  have hsame : registered ++ again.filterMap (Call.registration? false) ⊆ registered :=
    List.append_subset.2 ⟨List.Subset.refl _, hagain⟩
  have hall : Registration.Consistent
      (registered ++ (again.map (.call callee)).filterMap Step.registration?) := by
    rw [hgiven]
    exact fun r hr q hq => hconsistent r (hsame hr) q (hsame hq)
  have hshares := shares_after h (allCollect_calls hm htarget hruntime hclear) hall
  rw [hshares.collection_eq, hgiven, h.collection_eq,
    Collection.ofRegistered_append_of_subset (List.map_subset _ hagain)]

/-- Managers that fill a collection, made and dropped as may be, leave in it what one manager leaves
in an empty collection after all their calls: the same ids in the same order with the same CSS, and
so the same text.  Each id that was registered is there once, and a manager that makes any of the
calls again changes nothing.  This takes that an id comes with one CSS only, and that the managers
that are there at first have injected nothing. -/
theorem shared_eq_single {options : Options} (hruntime : options.buildTime = false)
    (hempty : w.hosts.collection name = .empty)
    (hfresh : ∀ callee m, w.manager? callee = some m → m.target = .collecting name →
      m.injected = [])
    {steps : List Step} (hsteps : w.allCollect name steps = true)
    (hconsistent : Registration.Consistent (steps.filterMap Step.registration?)) :
    let calls := steps.filterMap Step.call?
    let shared := (w.after steps).hosts.collection name
    let single := ((Manager.fresh options (Sink.mk .empty)).after calls).target.collection
    shared = single ∧
      (∀ c ∈ calls, ∀ r, c.registration? false = some r → shared.ids.count r.id = 1) ∧
      ∀ (newcomer : String) (others : Options), others.buildTime = false → ∀ again ⊆ calls,
        ((w.after steps).after (.install newcomer others (.collecting name) ::
          again.map (.call (.named newcomer)))).hosts.collection name = shared := by
  intro calls shared single
  have hstart : Shares name [] w := by
    refine ⟨hempty, fun callee m hm htarget => ?_⟩
    rw [hfresh callee m hm htarget]
    exact List.Subset.refl _
  have hregistered : steps.filterMap Step.registration? =
      calls.filterMap (Call.registration? false) :=
    (List.filterMap_filterMap).symm
  rw [hregistered] at hconsistent
  have hshares : Shares name (calls.filterMap (Call.registration? false)) (w.after steps) :=
    hregistered ▸ shares_after hstart hsteps (hregistered ▸ hconsistent)
  have hclear : .clear ∉ calls := clear_not_mem_of_allCollect hsteps
  refine ⟨?_, fun c hc r hr => ?_, fun newcomer others hothers again hagain => ?_⟩
  · exact hshares.collection_eq.trans (Manager.collection_after_fresh hruntime hclear).symm
  · have hmem : r ∈ calls.filterMap (Call.registration? false) := List.mem_filterMap.2 ⟨c, hc, hr⟩
    have hshared : shared = .ofRegistered (calls.filterMap (Call.registration? false)) :=
      hshares.collection_eq
    rw [hshared]
    exact Collection.count_ids_ofRegistered hmem
  · let made := ((w.after steps).step (.install newcomer others (.collecting name))).1
    have hmanagers (callee : Callee) : made.manager? callee =
        if callee = .named newcomer then some (.fresh others (.collecting name))
        else (w.after steps).manager? callee :=
      (w.after steps).manager?_install newcomer others (.collecting name) callee
    have hmade : Shares name (calls.filterMap (Call.registration? false)) made :=
      shares_made hshares rfl hmanagers
    have hm : made.manager? (.named newcomer) = some (.fresh others (.collecting name)) :=
      (hmanagers (.named newcomer)).trans (if_pos rfl)
    exact collection_after_again hmade hm rfl hothers hconsistent
      (fun hmem => hclear (hagain hmem)) (List.filterMap_subset _ hagain)

/-- Two managers and the standing one, which is dropped and made anew, fill the global collection.
The class of a template comes from three of them. -/
theorem shared_eq_single_standing :
    let w := Workspace.empty .none
    let red : Call := .css (.template (.raw "color: red;"))
    let r := Registration.ofInput (.template (.raw "color: red;"))
    let steps : List Step := [
      .install "first" .production (.collecting globalCollection),
      .install "second" .development (.collecting globalCollection),
      .call (.named "second") red,
      .call .standing (.styled (.property "margin" (.text "0") .empty)),
      .call (.named "first") (.applyStyles ".v \x7b \x7d" none),
      .call .standing red,
      .reset,
      .call .standing (.applyStyles ".v \x7b \x7d" (some .null)),
      .call .standing red]
    let calls := steps.filterMap Step.call?
    let shared := (w.after steps).hosts.collection globalCollection
    Options.production.buildTime = false ∧ w.hosts.collection globalCollection = .empty ∧
      (∀ callee m, w.manager? callee = some m → m.target = .collecting globalCollection →
        m.injected = []) ∧
      w.allCollect globalCollection steps = true ∧
      Registration.Consistent (steps.filterMap Step.registration?) ∧
      shared = ((Manager.fresh .production (Sink.mk .empty)).after calls).target.collection ∧
      shared.ids.count r.id = 1 ∧ shared.ids.length = 3 ∧
      [red, red] ⊆ calls ∧
      ((w.after steps).after (.install "third" .production (.collecting globalCollection) ::
        [red, red].map (.call (.named "third")))).hosts.collection globalCollection = shared := by
  intro w red r steps calls shared
  have hruntime : Options.production.buildTime = false := rfl
  have hempty : w.hosts.collection globalCollection = .empty := rfl
  have hfresh : ∀ callee m, w.manager? callee = some m →
      m.target = .collecting globalCollection → m.injected = [] := by
    rintro callee m hm -
    cases callee with
    | named name => cases hm
    | standing =>
        cases hm
        rfl
  have hsteps : w.allCollect globalCollection steps = true := by
    decide +kernel
  have hconsistent : Registration.Consistent (steps.filterMap Step.registration?) := by
    unfold Registration.Consistent
    decide +kernel
  obtain ⟨hsingle, hcount, hagain⟩ :=
    shared_eq_single hruntime hempty hfresh hsteps hconsistent
  have hred : red ∈ calls := List.mem_cons_self
  have hsubset : [red, red] ⊆ calls := by
    intro c hc
    rcases List.mem_cons.1 hc with rfl | hc
    · exact hred
    · rw [List.mem_singleton.1 hc]
      exact hred
  have hid : red.registration? false = some r := rfl
  exact ⟨hruntime, hempty, hfresh, hsteps, hconsistent, hsingle, hcount red hred r hid,
    by decide +kernel, hsubset, hagain "third" .production rfl [red, red] hsubset⟩

end Workspace

end ScopedCss
