/-
# Managers that do not share a host

Managers whose targets are kept by different hosts do not meet: whatever order their calls and the
drains of collections come in, each manager answers, keeps and injects what it does when the others
are left out.  The statement compares a run with the run of one manager's own steps in any workspace
that has the same manager and the same content of its host, whatever else is in there
(`runs_as_alone`).

A step of the manager or of its host depends on these two only (`step_own`).  Any other step leaves
both as they are (`agree_step_other`), since what is done at a place reaches its own host only
(`Place.act_frame`).
-/

import ScopedCss.Proofs.Workspace.Run

namespace ScopedCss

/-- A sheet, an element or a collection, by its name. -/
inductive Host where
  | sheet (name : String)
  | element (name : String)
  | collection (name : String)
deriving DecidableEq, Repr

/-- What a host holds. -/
inductive HostContent where
  | sheet (sheet : Sheet)
  | element (element : Element)
  | collection (collection : Collection)
deriving DecidableEq, Repr

/-- The host that keeps what a target is given. -/
def TargetRef.host : TargetRef → Host
  | .live (.sheet name) | .live (.locked name _ _) => .sheet name
  | .live (.element name) | .live (.plain name) => .element name
  | .collecting name => .collection name

/-- The content of one host. -/
def Hosts.content (hosts : Hosts) : Host → HostContent
  | .sheet name => .sheet (hosts.sheet name)
  | .element name => .element (hosts.element name)
  | .collection name => .collection (hosts.collection name)

namespace Hosts

variable {hosts : Hosts} {name : String} {host : Host}

theorem content_setSheet (sheet : Sheet) :
    (hosts.setSheet name sheet).content host =
      if host = .sheet name then .sheet sheet else hosts.content host := by
  cases host with
  | sheet other =>
      simp only [content, sheet_setSheet, Host.sheet.injEq]
      split <;> rfl
  | element other => rfl
  | collection other => rfl

theorem content_setElement (element : Element) :
    (hosts.setElement name element).content host =
      if host = .element name then .element element else hosts.content host := by
  cases host with
  | sheet other => rfl
  | element other =>
      simp only [content, element_setElement, Host.element.injEq]
      split <;> rfl
  | collection other => rfl

theorem content_setCollection (collection : Collection) :
    (hosts.setCollection name collection).content host =
      if host = .collection name then .collection collection else hosts.content host := by
  cases host with
  | sheet other => rfl
  | element other => rfl
  | collection other =>
      simp only [content, collection_setCollection, Host.collection.injEq]
      split <;> rfl

end Hosts

namespace Place

/-- Two places with the same reference and the same content of the host that it is about. -/
def Alike (p q : Place) : Prop :=
  p.ref = q.ref ∧ p.hosts.content p.ref.host = q.hosts.content p.ref.host

variable {α : Type} {p q : Place} (f : {τ : Type} → [InjectionTarget τ] → τ → τ × α)

theorem ref_act (p : Place) : (p.act f).1.ref = p.ref := by
  obtain ⟨hosts, ref⟩ := p
  cases ref with
  | live ref => cases ref <;> rfl
  | collecting name => rfl

/-- What is done at a place reaches no other host. -/
theorem act_frame {host : Host} (h : host ≠ p.ref.host) :
    (p.act f).1.hosts.content host = p.hosts.content host := by
  obtain ⟨hosts, ref⟩ := p
  cases ref with
  | live ref =>
      cases ref with
      | sheet name => exact (Hosts.content_setSheet _).trans (if_neg h)
      | locked name keep hidden => exact (Hosts.content_setSheet _).trans (if_neg h)
      | element name => exact (Hosts.content_setElement _).trans (if_neg h)
      | plain name => exact (Hosts.content_setElement _).trans (if_neg h)
  | collecting name => exact (Hosts.content_setCollection _).trans (if_neg h)

/-- What is done at a place depends on the host that it is about, and changes it accordingly. -/
theorem act_alike (h : Alike p q) :
    (p.act f).2 = (q.act f).2 ∧ Alike (p.act f).1 (q.act f).1 := by
  obtain ⟨hosts, ref⟩ := p
  obtain ⟨others, ref'⟩ := q
  obtain ⟨href, hcontent⟩ := h
  simp only at href hcontent
  subst href
  cases ref with
  | live ref =>
      cases ref with
      | sheet name =>
          have hsheet : hosts.sheet name = others.sheet name := HostContent.sheet.inj hcontent
          simp [act, Alike, TargetRef.host, Hosts.content_setSheet, hsheet]
      | locked name keep hidden =>
          have hsheet : hosts.sheet name = others.sheet name := HostContent.sheet.inj hcontent
          simp [act, Alike, TargetRef.host, Hosts.content_setSheet, hsheet]
      | element name =>
          have helement : hosts.element name = others.element name :=
            HostContent.element.inj hcontent
          simp [act, Alike, TargetRef.host, Hosts.content_setElement, helement]
      | plain name =>
          have helement : hosts.element name = others.element name :=
            HostContent.element.inj hcontent
          simp [act, Alike, TargetRef.host, Hosts.content_setElement, helement]
  | collecting name =>
      have hcollection : hosts.collection name = others.collection name :=
        HostContent.collection.inj hcontent
      simp [act, Alike, TargetRef.host, Hosts.content_setCollection, hcollection]

theorem lockstep_alike : Lockstep Alike :=
  ⟨fun _ _ id css h => (act_alike (fun target => InjectionTarget.inject target id css) h).2,
    fun _ _ h => (act_alike InjectionTarget.clear h).2⟩

end Place

namespace Manager

/-- A call leaves a manager at its place, and every other host as it is. -/
theorem place_call (m : Manager Place) (c : Call) :
    (m.call c).value.1.target.ref = m.target.ref ∧
      ∀ host, host ≠ m.target.ref.host →
        (m.call c).value.1.target.hosts.content host = m.target.hosts.content host := by
  let Kept (place : Place) : Prop := place.ref = m.target.ref ∧
    ∀ host, host ≠ m.target.ref.host → place.hosts.content host = m.target.hosts.content host
  have hact {α : Type} (f : {τ : Type} → [InjectionTarget τ] → τ → τ × α) (place : Place)
      (h : Kept place) : Kept (place.act f).1 := by
    refine ⟨(place.ref_act f).trans h.1, fun host hne => ?_⟩
    rw [Place.act_frame f (h.1 ▸ hne), h.2 host hne]
  exact target_call (P := Kept)
    (fun place id css => hact (fun target => InjectionTarget.inject target id css) place)
    (hact InjectionTarget.clear) ⟨rfl, fun _ _ => rfl⟩ c

end Manager

namespace Step

/-- A call to one of some managers, or a drain: a step by which no manager is made or dropped. -/
def isUse (callees : List Callee) : Step → Bool
  | .call callee _ => callees.contains callee
  | .take _ | .empty _ | .dropCollected => true
  | .install _ _ _ | .establish _ | .reset => false

/-- A call to a manager, or a drain of its host. -/
def isOwn (who : Callee) (host : Host) : Step → Bool
  | .call callee _ => callee = who
  | .take name | .empty name => host = .collection name
  | .dropCollected => host = .collection globalCollection
  | .install _ _ _ | .establish _ | .reset => false

end Step

namespace Workspace

/-- The host of the manager that a call is made to. -/
def host? (w : Workspace) (callee : Callee) : Option Host :=
  (w.manager? callee).map fun m => m.target.host

/-- Two workspaces have the same manager and the same content of a host. -/
structure AgreeOn (who : Callee) (host : Host) (w v : Workspace) : Prop where
  manager?_eq : w.manager? who = v.manager? who
  content_eq : w.hosts.content host = v.hosts.content host

variable {w v : Workspace} {callees : List Callee} {who callee : Callee} {host : Host} {s : Step}
  {m : Manager TargetRef}

theorem target_recalled_call (w : Workspace) (m : Manager TargetRef) (c : Call) :
    (recalled ((w.placed m).call c).value.1).target = m.target :=
  ((w.placed m).place_call c).1

/-- Managers keep their hosts. -/
theorem host?_step (hs : s.isUse callees = true) (callee : Callee) :
    (w.step s).1.host? callee = w.host? callee := by
  cases s with
  | call called c =>
      cases hm : w.manager? called with
      | none => rw [step_call_of_none hm]
      | some m =>
          simp only [host?, step_call hm, manager?_setManager, manager?_withHosts]
          split
          · next heq => rw [heq, hm, Option.map_some, Option.map_some, target_recalled_call]
          · rfl
  | take name => exact congrArg (Option.map _) (w.manager?_withHosts _ callee)
  | empty name => exact congrArg (Option.map _) (w.manager?_withHosts _ callee)
  | dropCollected => exact congrArg (Option.map _) (w.manager?_withHosts _ callee)
  | install name options ref => cases hs
  | establish setup => cases hs
  | reset => cases hs

theorem agree_call_other (h : AgreeOn who host w v) (hne : callee ≠ who)
    (hhost : w.host? callee ≠ some host) (c : Call) :
    AgreeOn who host (w.step (.call callee c)).1 v := by
  cases hm : w.manager? callee with
  | none => rwa [step_call_of_none hm]
  | some m =>
      have hother : host ≠ m.target.host := by
        intro heq
        rw [host?, hm, heq, Option.map_some] at hhost
        exact hhost rfl
      have hframe := ((w.placed m).place_call c).2 host hother
      rw [step_call hm]
      refine ⟨?_, ?_⟩
      · rw [manager?_setManager, if_neg hne.symm, manager?_withHosts, h.manager?_eq]
      · rw [hosts_setManager]
        exact hframe.trans h.content_eq

theorem agree_withHosts_other (h : AgreeOn who host w v) {name : String}
    (hne : host ≠ .collection name) (collection : Collection) :
    AgreeOn who host { w with hosts := w.hosts.setCollection name collection } v := by
  refine ⟨?_, ?_⟩
  · rw [manager?_withHosts, h.manager?_eq]
  · exact (Hosts.content_setCollection collection).trans ((if_neg hne).trans h.content_eq)

/-- A step of others, or of another host, leaves a manager and its host as they are. -/
theorem agree_step_other (h : AgreeOn who host w v)
    (hothers : ∀ callee ∈ callees, w.host? callee = some host → callee = who)
    (hs : s.isUse callees = true) (hown : s.isOwn who host = false) :
    AgreeOn who host (w.step s).1 v := by
  cases s with
  | call callee c =>
      have hne : callee ≠ who := of_decide_eq_false hown
      have hmem : callee ∈ callees := List.contains_iff_mem.1 hs
      exact agree_call_other h hne (fun hhost => hne (hothers callee hmem hhost)) c
  | take name => exact agree_withHosts_other h (of_decide_eq_false hown) _
  | empty name => exact agree_withHosts_other h (of_decide_eq_false hown) _
  | dropCollected => exact agree_withHosts_other h (of_decide_eq_false hown) _
  | install name options ref => cases hs
  | establish setup => cases hs
  | reset => cases hs

theorem agree_call_own (h : AgreeOn who m.target.host w v) (hm : w.manager? who = some m)
    (c : Call) :
    (w.step (.call who c)).2 = (v.step (.call who c)).2 ∧
      AgreeOn who m.target.host (w.step (.call who c)).1 (v.step (.call who c)).1 := by
  have hv : v.manager? who = some m := h.manager?_eq.symm.trans hm
  have hpaired : Manager.Paired Place.Alike (w.placed m) (v.placed m) :=
    ⟨rfl, rfl, rfl, rfl, fun _ => rfl, rfl, h.content_eq⟩
  obtain ⟨hanswer, hcalled⟩ := Manager.paired_call Place.lockstep_alike hpaired c
  have hoptions :
      ((w.placed m).call c).value.1.options = ((v.placed m).call c).value.1.options := by
    rw [Manager.options_call, Manager.options_call]
    rfl
  obtain ⟨href, hcontent⟩ := hcalled.target
  rw [step_call hm, step_call hv]
  refine ⟨hanswer, ?_, ?_⟩
  · rw [manager?_setManager, if_pos rfl, manager?_setManager, if_pos rfl, recalled, recalled, href,
      hcalled.rebind_eq hoptions]
  · rw [((w.placed m).place_call c).1] at hcontent
    rw [hosts_setManager, hosts_setManager]
    exact hcontent

theorem agree_withHosts_own {name : String} (h : AgreeOn who (.collection name) w v)
    (collection : Collection) :
    AgreeOn who (.collection name) { w with hosts := w.hosts.setCollection name collection }
      { v with hosts := v.hosts.setCollection name collection } := by
  refine ⟨?_, ?_⟩
  · exact (w.manager?_withHosts _ who).trans
      (h.manager?_eq.trans (v.manager?_withHosts _ who).symm)
  · exact (Hosts.content_setCollection collection).trans
      ((if_pos rfl).trans ((Hosts.content_setCollection collection).trans (if_pos rfl)).symm)

/-- A step of a manager or of its host is answered alike and goes on alike wherever these two are
the same. -/
theorem step_own (h : AgreeOn who host w v) (hhost : w.host? who = some host)
    (hown : s.isOwn who host = true) :
    (w.step s).2 = (v.step s).2 ∧ AgreeOn who host (w.step s).1 (v.step s).1 := by
  cases s with
  | call callee c =>
      obtain rfl : callee = who := of_decide_eq_true hown
      obtain ⟨m, hm, rfl⟩ := Option.map_eq_some_iff.1 hhost
      exact agree_call_own h hm c
  | take name =>
      obtain rfl : host = .collection name := of_decide_eq_true hown
      have hcollection : w.hosts.collection name = v.hosts.collection name :=
        HostContent.collection.inj h.content_eq
      refine ⟨?_, agree_withHosts_own h .empty⟩
      simp only [step, Collection.take, hcollection]
  | empty name =>
      obtain rfl : host = .collection name := of_decide_eq_true hown
      exact ⟨rfl, agree_withHosts_own h .empty⟩
  | dropCollected =>
      obtain rfl : host = .collection globalCollection := of_decide_eq_true hown
      exact ⟨rfl, agree_withHosts_own h .empty⟩
  | install name options ref => cases hown
  | establish setup => cases hown
  | reset => cases hown

/-- Managers of which no two have the same host. -/
def Apart (w : Workspace) (callees : List Callee) : Prop :=
  ∀ a ∈ callees, ∀ b ∈ callees, ∀ host ∈ w.host? a, host ∈ w.host? b → a = b

/-- The own steps of a manager are answered alike with and without the others in between. -/
theorem trace_own (hagree : AgreeOn who host w v) (hhost : w.host? who = some host)
    (hothers : ∀ callee ∈ callees, w.host? callee = some host → callee = who)
    {steps : List Step} (hsteps : ∀ s ∈ steps, s.isUse callees = true) :
    (w.trace steps).filter (fun answered => answered.1.isOwn who host) =
        v.trace (steps.filter (Step.isOwn who host)) ∧
      AgreeOn who host (w.after steps) (v.after (steps.filter (Step.isOwn who host))) := by
  -- Over any two workspaces that agree: an own step moves both, any other step only the first.
  induction steps generalizing w v with
  | nil => exact ⟨rfl, hagree⟩
  | cons s steps ih =>
      obtain ⟨hs, hrest⟩ := List.forall_mem_cons.1 hsteps
      have hhost' : (w.step s).1.host? who = some host := (host?_step hs who).trans hhost
      have hothers' (callee : Callee) (hmem : callee ∈ callees)
          (hcallee : (w.step s).1.host? callee = some host) : callee = who :=
        hothers callee hmem ((host?_step hs callee).symm.trans hcallee)
      cases hown : s.isOwn who host with
      | true =>
          obtain ⟨hanswer, hnext⟩ := step_own hagree hhost hown
          obtain ⟨htrace, hlast⟩ := ih hnext hhost' hothers' hrest
          have hkept : (s :: steps).filter (Step.isOwn who host) =
              s :: steps.filter (Step.isOwn who host) := List.filter_cons_of_pos hown
          rw [hkept, trace, trace, ← htrace, ← hanswer]
          exact ⟨List.filter_cons_of_pos hown, hlast⟩
      | false =>
          have hnot : ¬ s.isOwn who host = true := by rw [hown]; exact Bool.false_ne_true
          have hnext := agree_step_other hagree hothers hs hown
          have hskipped : (s :: steps).filter (Step.isOwn who host) =
              steps.filter (Step.isOwn who host) := List.filter_cons_of_neg hnot
          obtain ⟨htrace, hlast⟩ := ih hnext hhost' hothers' hrest
          rw [hskipped, trace, ← htrace]
          exact ⟨List.filter_cons_of_neg hnot, hlast⟩

/-- Managers with hosts of their own do not notice each other.  In any run of their calls and of
drains, the steps of one manager and the drains of its host are answered as they are in a run of
these steps only, and they leave the same manager, with its styles, snapshots and extracted CSS, and
the same content of its host.  The run without the others may be in another workspace, where the
manager and its host are the same to begin with. -/
theorem runs_as_alone {m : Manager TargetRef} (hapart : w.Apart callees)
    {steps : List Step} (hsteps : ∀ s ∈ steps, s.isUse callees = true) (hwho : who ∈ callees)
    {alone : Workspace} (hm : w.manager? who = some m) (hmanager : alone.manager? who = some m)
    (hcontent : w.hosts.content m.target.host = alone.hosts.content m.target.host) :
    let own := Step.isOwn who m.target.host
    (w.trace steps).filter (fun answered => own answered.1) = alone.trace (steps.filter own) ∧
      (w.after steps).manager? who = (alone.after (steps.filter own)).manager? who ∧
      (w.after steps).hosts.content m.target.host =
        (alone.after (steps.filter own)).hosts.content m.target.host := by
  intro own
  have hhost : w.host? who = some m.target.host := by rw [host?, hm, Option.map_some]
  have hothers (callee : Callee) (hmem : callee ∈ callees)
      (hcallee : w.host? callee = some m.target.host) : callee = who :=
    hapart callee hmem who hwho m.target.host hcallee hhost
  have hagree : AgreeOn who m.target.host w alone := ⟨hm.trans hmanager.symm, hcontent⟩
  obtain ⟨htrace, hlast⟩ := trace_own hagree hhost hothers hsteps
  exact ⟨htrace, hlast.manager?_eq, hlast.content_eq⟩

/-- A manager that collects, one with a sheet of the same name, one that works for a build and the
standing one, with the same id in all of them.  What is taken from the collection is the CSS of the
first manager, as in a workspace that holds it alone. -/
theorem runs_as_alone_colliding :
    let extracting : Options := { Options.production with buildTime := true }
    let first : Manager TargetRef := .fresh .development (.collecting "a")
    let alone := (Workspace.empty .none).after [.install "first" .development (.collecting "a")]
    let w := alone.after [.install "second" .production (.live (.sheet "a")),
      .install "third" extracting (.live (.plain "a"))]
    let callees : List Callee := [.named "first", .named "second", .named "third", .standing]
    let steps : List Step := [
      .call (.named "second") (.addStyle "x" ".x \x7b \x7d" none),
      .call (.named "first") (.addStyle "x" ".y \x7b \x7d" none),
      .call .standing (.addStyle "x" ".z \x7b \x7d" none),
      .call (.named "second") .clear,
      .call (.named "third") (.css (.template (.raw "color: red;"))),
      .dropCollected, .take "a", .take globalCollection,
      .call (.named "first") (.applyStyles ".v \x7b \x7d" none)]
    let own := Step.isOwn (.named "first") (.collection "a")
    w.Apart callees ∧ (∀ s ∈ steps, s.isUse callees = true) ∧ .named "first" ∈ callees ∧
      w.manager? (.named "first") = some first ∧ alone.manager? (.named "first") = some first ∧
      w.hosts.content (.collection "a") = alone.hosts.content (.collection "a") ∧
      ((w.trace steps).filter fun answered => own answered.1) = alone.trace (steps.filter own) ∧
      (w.after steps).manager? (.named "first") =
        (alone.after (steps.filter own)).manager? (.named "first") ∧
      (w.after steps).hosts.content (.collection "a") =
        (alone.after (steps.filter own)).hosts.content (.collection "a") ∧
      (steps.filter own).length = 3 ∧
      ((w.trace steps).filter fun answered => own answered.1).map Prod.snd =
        [some "x", some ".y \x7b \x7d", some (Digest.classNameOfText ".v \x7b \x7d")] := by
  intro extracting first alone w callees steps own
  have hapart : w.Apart callees := by
    unfold Apart
    decide +kernel
  have hsteps : ∀ s ∈ steps, s.isUse callees = true := by
    decide +kernel
  have hwho : .named "first" ∈ callees := List.mem_cons_self
  have hm : w.manager? (.named "first") = some first := rfl
  have hmanager : alone.manager? (.named "first") = some first := rfl
  have hcontent : w.hosts.content (.collection "a") = alone.hosts.content (.collection "a") := rfl
  obtain ⟨htrace, hlast, hkept⟩ :=
    runs_as_alone hapart hsteps hwho hm hmanager hcontent
  exact ⟨hapart, hsteps, hwho, hm, hmanager, hcontent, htrace, hlast, hkept, by decide +kernel,
    by decide +kernel⟩

end Workspace

end ScopedCss
