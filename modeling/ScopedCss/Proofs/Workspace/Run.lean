/-
# What a step of a workspace does

A call is made to a manager with a name or to the standing one.  `Workspace.manager?` and
`Workspace.setManager` do not tell the two apart, so a call is one law for both (`step_call`): the
manager is called at its place among the hosts and put back.

A call changes no options (`Manager.options_call`), and it changes a target only by what injecting
and clearing do (`Manager.target_call`).
-/

import ScopedCss.Proofs.Manager.Paired
import ScopedCss.Workspace.Run

namespace ScopedCss

namespace Workspace

@[simp] theorem hosts_setManager (w : Workspace) (m : Manager TargetRef) (callee : Callee) :
    (w.setManager m callee).hosts = w.hosts := by
  cases callee <;> rfl

theorem manager?_setManager (w : Workspace) (m : Manager TargetRef) (callee other : Callee) :
    (w.setManager m callee).manager? other =
      if other = callee then some m else w.manager? other := by
  cases callee with
  | named name =>
      cases other with
      | named key => simp [manager?, setManager, Table.get?_put]
      | standing => rfl
  | standing =>
      cases other with
      | named key => rfl
      | standing => rfl

/-- Managers do not depend on the hosts, also the standing one before it is made. -/
@[simp] theorem manager?_withHosts (w : Workspace) (hosts : Hosts) (callee : Callee) :
    ({ w with hosts } : Workspace).manager? callee = w.manager? callee := by
  cases callee with
  | named name => rfl
  | standing =>
      obtain ⟨_, _, _, _, standing⟩ := w
      cases standing <;> rfl

theorem manager?_install (w : Workspace) (name : String) (options : Options) (ref : TargetRef)
    (callee : Callee) :
    (w.step (.install name options ref)).1.manager? callee =
      if callee = .named name then some (.fresh options ref) else w.manager? callee :=
  w.manager?_setManager (.fresh options ref) (.named name) callee

theorem manager?_establish (w : Workspace) (setup : Setup) (callee : Callee) :
    (w.step (.establish setup)).1.manager? callee =
      if callee = .standing then some (.fresh setup.options setup.target)
      else w.manager? callee :=
  w.manager?_setManager (.fresh setup.options setup.target) .standing callee

/-- After a reset the standing manager is made anew from the environment. -/
theorem manager?_reset (w : Workspace) (callee : Callee) :
    (w.step .reset).1.manager? callee =
      if callee = .standing then
        some (.fresh (.ofEnvironment w.environment) (.collecting globalCollection))
      else w.manager? callee := by
  cases callee <;> rfl

/-- A manager at its place among the hosts. -/
def placed (w : Workspace) (m : Manager TargetRef) : Manager Place :=
  m.rebind ⟨w.hosts, m.target⟩

/-- A manager away from the hosts, after a call. -/
def recalled (m : Manager Place) : Manager TargetRef :=
  m.rebind m.target.ref

variable {w : Workspace} {callee : Callee} {m : Manager TargetRef}

/-- A call is made to a manager at its place; the hosts and the manager that it leaves are put
back. -/
theorem step_call (h : w.manager? callee = some m) (c : Call) :
    w.step (.call callee c) =
      let done := ((w.placed m).call c).value
      (({ w with hosts := done.1.target.hosts } : Workspace).setManager (recalled done.1) callee,
        done.2) := by
  cases callee with
  | named name =>
      have hget : w.managers.get? name = some m := h
      simp only [step, withManager?, hget, Option.map_some]
      rfl
  | standing =>
      have hstanding : w.standingManager.value = m := Option.some.inj h
      simp only [step, withStanding, Logged.value_bind, hstanding]
      rfl

/-- A call to a name without a manager does nothing. -/
theorem step_call_of_none (h : w.manager? callee = none) (c : Call) :
    w.step (.call callee c) = (w, none) := by
  cases callee with
  | named name =>
      have hget : w.managers.get? name = none := h
      simp only [step, withManager?, hget, Option.map_none]
  | standing => cases h

end Workspace

namespace Manager

variable {τ : Type} [InjectionTarget τ]

theorem options_addStyle (m : Manager τ) (id css : String) (metadata : Option Json) :
    (m.addStyle id css metadata).value.options = m.options := by
  unfold addStyle
  split <;> rfl

theorem options_css (m : Manager τ) (input : StyleInput) :
    (m.css input).value.1.options = m.options := by
  cases hbuild : m.options.buildTime with
  | true => simp only [css, hbuild, if_true, Logged.value_bind, Logged.value_pure]
  | false =>
      simp only [css, hbuild, Bool.false_eq_true, if_false, Logged.value_bind, Logged.value_pure]
      exact options_addStyle m _ _ _

/-- No call changes options. -/
theorem options_call (m : Manager τ) (c : Call) : (m.call c).value.1.options = m.options := by
  cases c with
  | addStyle id css metadata => exact options_addStyle m id css metadata
  | css input => exact options_css m input
  | styled style => exact options_css m (.style style)
  | applyStyles css metadata => exact options_addStyle m (Digest.ofText css) css metadata
  | clear => rfl

/-- What injecting and clearing keep of a target, every call keeps.  The registry is led by a second
manager, whose target does not matter. -/
theorem target_call {P : τ → Prop}
    (hinject : ∀ target id css, P target → P (InjectionTarget.inject target id css).1)
    (hclear : ∀ target, P target → P (InjectionTarget.clear target).1)
    {m : Manager τ} (h : P m.target) (c : Call) : P (m.call c).value.1.target := by
  have hR : Lockstep fun (target : τ) (_ : Sink) => P target :=
    ⟨fun target _ => hinject target, fun target _ => hclear target⟩
  have hpaired : Paired (fun (target : τ) (_ : Sink) => P target) m (m.rebind (Sink.mk .empty)) :=
    ⟨rfl, rfl, rfl, rfl, fun _ => rfl, h⟩
  exact (paired_call hR hpaired c).2.target

end Manager

end ScopedCss
