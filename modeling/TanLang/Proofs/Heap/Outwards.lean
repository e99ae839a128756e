import TanLang.Proofs.Evaluation.Preservation
import TanLang.Proofs.Heap.Grounding
/-!
# The heap — every way out ends at the globals

In a grounded heap each step out leads to a scope that was made earlier, and
only the globals have none around them. So **the way out from any scope comes
to the globals and ends there**, after no more steps than there are scopes
made before; and a name that is looked for on the way is found, or is not, by
then.
-/

namespace TanLang

namespace Heap.Grounded

variable {h : Heap}

/-- **The way out from a scope**: so many steps lead to the globals and no
step leads on; each one before leads to a scope that is there, and that was
made at least as many scopes earlier. -/
structure WayOut (h : Heap) (s : ScopeId) (steps : Nat) : Prop where
  globals : h.ancestor s steps = some Machine.globals
  ends : ∀ d, steps < d → h.ancestor s d = none
  there : ∀ d, d ≤ steps →
    ∃ t, h.ancestor s d = some t ∧ t.index < h.scopes.size ∧ t.index + d ≤ s.index

/-- Where no scope is around, the way out ends. -/
theorem wayOut_globals {scope : Scope} (hscope : h.scope? Machine.globals = some scope)
    (houter : scope.outer = none) : WayOut h Machine.globals 0 where
  globals := rfl
  ends d hd := by
    obtain ⟨d, rfl⟩ : ∃ e, d = e + 1 := ⟨d - 1, by omega⟩
    have hout : h.outwards (d + 1) (some Machine.globals) = h.outwards d none := by
      rw [Heap.outwards, hscope, Option.bind_some, houter]
    rw [Heap.ancestor, hout]
    cases d <;> rfl
  there d hd := by
    obtain rfl : d = 0 := Nat.le_zero.1 hd
    exact ⟨_, rfl, (Array.getElem?_eq_some_iff.1 hscope).1, Nat.le_refl _⟩

/-- A scope has a way out if the one around it has. -/
theorem WayOut.inside {s outer : ScopeId} {scope : Scope} {steps : Nat}
    (hout : WayOut h outer steps) (hscope : h.scope? s = some scope)
    (houter : scope.outer = some outer) (hbefore : outer.index < s.index) :
    WayOut h s (steps + 1) where
  globals := by rw [Eval.ancestor_succ hscope houter, hout.globals]
  ends d hd := by
    obtain ⟨d, rfl⟩ : ∃ e, d = e + 1 := ⟨d - 1, by omega⟩
    rw [Eval.ancestor_succ hscope houter]
    exact hout.ends d (by omega)
  there d hd := by
    cases d with
    | zero => exact ⟨s, rfl, (Array.getElem?_eq_some_iff.1 hscope).1, Nat.le_refl _⟩
    | succ d =>
      obtain ⟨t, ht, hthere, hle⟩ := hout.there d (by omega)
      exact ⟨t, (Eval.ancestor_succ hscope houter).trans ht, hthere, by omega⟩

/-- **Every scope has a way out**, no longer than the scopes made before it
are many. -/
theorem exists_wayOut (hh : h.Grounded) (s : ScopeId) (hs : s.index < h.scopes.size) :
    ∃ steps ≤ s.index, WayOut h s steps := by
  have hscope : h.scope? s = some h.scopes[s.index] := Array.getElem?_eq_getElem hs
  have hplace := hh.scopes s _ hscope
  cases houter : h.scopes[s.index].outer with
  | none =>
    obtain rfl := hplace.globals houter
    exact ⟨0, Nat.zero_le _, wayOut_globals hscope houter⟩
  | some outer =>
    have hbefore := hplace.outer outer houter
    obtain ⟨steps, hsteps, hout⟩ := hh.exists_wayOut outer (Nat.lt_trans hbefore hs)
    exact ⟨steps + 1, by omega, hout.inside hscope houter hbefore⟩
termination_by s.index

/-- **A lookup from a scope ends before the scopes do**: a larger number of
steps finds the same holder. -/
theorem holderWithin_eq (hh : h.Grounded) (name : Text) : ∀ (steps steps' : Nat) (s : ScopeId),
    s.index < steps → s.index < steps' →
      h.holderWithin name steps s = h.holderWithin name steps' s
  | 0, _, _, hs, _ => absurd hs (Nat.not_lt_zero _)
  | _ + 1, 0, _, _, hs => absurd hs (Nat.not_lt_zero _)
  | steps + 1, steps' + 1, s, hs, hs' => by
    rw [Heap.holderWithin, Heap.holderWithin]
    cases hscope : h.scope? s with
    | none => rfl
    | some scope =>
      simp only
      split
      · rfl
      · cases houter : scope.outer with
        | none => rfl
        | some outer =>
          have hlt := (hh.scopes s scope hscope).outer outer houter
          exact holderWithin_eq hh name steps steps' outer (by omega) (by omega)

end Heap.Grounded

namespace Heap

/-- **Lookups end by themselves**: no number of steps that is larger than a
place changes what is found from there, be it a name in the scopes or a method
in the classes. -/
structure LookupsEnd (h : Heap) : Prop where
  holder : ∀ name s steps, s.index < h.scopes.size → s.index < steps →
    h.holderWithin name steps s = h.holder s name
  method : ∀ name c steps, c.index < h.classes.size → c.index < steps →
    h.methodWithin name steps c = h.method? c name

theorem Grounded.lookupsEnd {h : Heap} (hh : h.Grounded) : h.LookupsEnd where
  holder name s steps hs hsteps := hh.holderWithin_eq name steps h.scopes.size s hsteps hs
  method name c steps hc hsteps := hh.methodWithin_eq name steps h.classes.size c hsteps hc

end Heap

end TanLang
