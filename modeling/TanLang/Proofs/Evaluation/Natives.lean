import TanLang.Eval
/-!
# Evaluation — calls of natives

Of the machine, a native that is called can only change the registry. That
is what the call leaves behind, whether the native answers or fails.
-/

namespace TanLang

namespace Eval

variable {rules : Rules} {paren : Token} {f : NativeId} {args : List Value} {m : Machine}

/-- **What the call of a native comes to**: the native is not there, or it
answers, or it fails. -/
@[elab_as_elim]
theorem callNative_cases {P : Outcome Value → Prop}
    (missing : m.heap.native? f = none → P (.crashed m))
    (answers : ∀ native v, m.heap.native? f = some native →
      native.run (m.world rules) (args.map m.heap.argument) = .ok v →
        P (.done v (m.keep (native.leaves (m.world rules) (args.map m.heap.argument)))))
    (fails : ∀ native message, m.heap.native? f = some native →
      native.run (m.world rules) (args.map m.heap.argument) = .error message →
        P (.raised ⟨.native message, paren⟩
          (m.keep (native.leaves (m.world rules) (args.map m.heap.argument))))) :
    P (callNative rules paren f args m) := by
  unfold callNative
  cases hnative : m.heap.native? f with
  | none => exact missing hnative
  | some native =>
    simp only
    cases hrun : native.run (m.world rules) (args.map m.heap.argument) with
    | ok v => exact answers native v hnative hrun
    | error message => exact fails native message hnative hrun

/-- **The call of a native leaves the machine as it is**, but for the
registry. -/
theorem machine_callNative (rules : Rules) (paren : Token) (f : NativeId) (args : List Value)
    (m : Machine) : ∃ r, (callNative rules paren f args m).machine = m.keep r := by
  refine callNative_cases (fun _ => ?_) (fun native v _ _ => ?_) fun native message _ _ => ?_
  · exact ⟨m.heap.registry, rfl⟩
  · exact ⟨_, rfl⟩
  · exact ⟨_, rfl⟩

end Eval

end TanLang
