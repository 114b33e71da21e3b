/-
# The target as a replay of the registry

A manager injects every style that it registers and nothing else, in the order in which it
registers them.  So the target can be read off the registry: it is what a base becomes when the
registered styles are injected into it one after the other (`replay`).  The base is the target the
manager was given, or, after a clearing, what that clearing left.

`Mirrors` is the invariant.  Each call but a clearing keeps it with the same base
(`mirrors_call`), and a clearing starts anew from what the target did not give up
(`mirrors_clear`); nothing is assumed of the target.
-/

import ScopedCss.Manager.Run
import ScopedCss.Proofs.Table

namespace ScopedCss

/-- What a target becomes when the styles of a registry are injected into it in their order. -/
def replay {τ : Type} [InjectionTarget τ] (base : τ) (styles : Table CompiledStyle) : τ :=
  styles.values.foldl
    (fun target style => (InjectionTarget.inject target style.id style.css).1) base

namespace Manager

variable {τ : Type} [InjectionTarget τ]

/-- The target is the replay of the registry on a base, and exactly the registered ids count as
injected. -/
structure Mirrors (base : τ) (m : Manager τ) : Prop where
  target_eq : m.target = replay base m.styles
  injected_eq : m.injected = m.styles.keys

theorem mirrors_fresh (options : Options) (target : τ) : Mirrors target (fresh options target) :=
  ⟨rfl, rfl⟩

variable {base : τ} {m : Manager τ}

theorem mirrors_addStyle (h : Mirrors base m) (id css : String) (metadata : Option Json) :
    Mirrors base (m.addStyle id css metadata).value := by
  by_cases hknown : m.isInjected id = true
  · rwa [addStyle, if_pos hknown]
  · rw [addStyle, if_neg hknown]
    have hnew : id ∉ m.styles.keys := by
      rw [← h.injected_eq]
      simpa [isInjected] using hknown
    constructor
    · simp only [h.target_eq, replay, Table.values, Table.put_eq_append hnew, List.map_append,
        List.map_cons, List.map_nil, List.foldl_append, List.foldl_cons, List.foldl_nil]
    · simp only [h.injected_eq, Table.keys_put, if_neg hnew]

theorem mirrors_css (h : Mirrors base m) (input : StyleInput) :
    Mirrors base (m.css input).value.1 := by
  by_cases hbuild : m.options.buildTime = true
  · simp only [css, hbuild, if_true, Logged.value_bind, Logged.value_pure]
    exact ⟨h.target_eq, h.injected_eq⟩
  · simp only [css, hbuild, Logged.value_bind]
    exact mirrors_addStyle h _ _ _

/-- Every call but a clearing keeps the target a replay on the same base. -/
theorem mirrors_call (h : Mirrors base m) {c : Call} (hc : c ≠ .clear) :
    Mirrors base (m.call c).value.1 := by
  cases c with
  | addStyle id css metadata => exact mirrors_addStyle h id css metadata
  | css input => exact mirrors_css h input
  | styled style => exact mirrors_css h (.style style)
  | applyStyles css metadata => exact mirrors_addStyle h (Digest.ofText css) css metadata
  | clear => exact absurd rfl hc

/-- A clearing makes what the target did not give up the new base. -/
theorem mirrors_clear (m : Manager τ) :
    Mirrors (InjectionTarget.clear m.target).1 (m.call .clear).value.1 :=
  ⟨rfl, rfl⟩

theorem mirrors_after (h : Mirrors base m) {calls : List Call} (hcalls : Call.clear ∉ calls) :
    Mirrors base (m.after calls) := by
  induction calls generalizing m with
  | nil => exact h
  | cons c calls ih =>
      rw [List.mem_cons, not_or] at hcalls
      exact ih (mirrors_call h fun hc => hcalls.1 hc.symm) hcalls.2

/-- A run without a clearing leaves the replay of the registry on the target it began with. -/
theorem mirrors_after_fresh (options : Options) (target : τ) {calls : List Call}
    (hcalls : Call.clear ∉ calls) : Mirrors target ((fresh options target).after calls) :=
  mirrors_after (mirrors_fresh options target) hcalls

/-- After a clearing the target is the replay of what was registered since, on what that clearing
left. -/
theorem mirrors_after_clear (m : Manager τ) (before : List Call) {since : List Call}
    (hsince : Call.clear ∉ since) :
    Mirrors (InjectionTarget.clear (m.after before).target).1
      (m.after (before ++ .clear :: since)) := by
  rw [after_append, after_cons]
  exact mirrors_after (mirrors_clear (m.after before)) hsince

end Manager

end ScopedCss
