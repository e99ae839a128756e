import TanLang.Proofs.Evaluation.Store
/-!
# The heap — the code in it

Functions and the methods of classes are the only code that a heap holds.
It gets there from the text of a program, and is never changed: a bound
method is a new function with the code of the old one. So **a property of
all the code in a heap** is lost only where a function or a class with other
code is declared.
-/

namespace TanLang

/-- All the code in a heap has a property. -/
structure Heap.Holds (Q : Routine (Stmt Address) → Prop) (h : Heap) : Prop where
  functions : ∀ f fn, h.function? f = some fn → Q fn.decl
  methods : ∀ c cls name fn, h.class? c = some cls → cls.methods.find? name = some fn → Q fn.decl

namespace Heap.Holds

variable {Q Q' : Routine (Stmt Address) → Prop} {h h' : Heap}

theorem imp (hholds : h.Holds Q) (himp : ∀ decl, Q decl → Q' decl) : h.Holds Q' where
  functions f fn hf := himp fn.decl (hholds.functions f fn hf)
  methods c cls name fn hc hfn := himp fn.decl (hholds.methods c cls name fn hc hfn)

/-- What leaves functions and classes alone adds no code. -/
theorem of_eq (hholds : h.Holds Q) (hfunctions : h'.functions = h.functions)
    (hclasses : h'.classes = h.classes) : h'.Holds Q where
  functions f fn hf := by
    rw [Heap.function?, hfunctions] at hf
    exact hholds.functions f fn hf
  methods c cls name fn hc := by
    rw [Heap.class?, hclasses] at hc
    exact hholds.methods c cls name fn hc

theorem newFunction (hholds : h.Holds Q) {f : Function} (hf : Q f.decl) :
    (h.newFunction f).1.Holds Q where
  functions g fn hg := by
    simp only [Heap.function?, Heap.newFunction, Array.getElem?_push] at hg
    split at hg
    · cases hg
      exact hf
    · exact hholds.functions g fn hg
  methods := hholds.methods

theorem newClass (hholds : h.Holds Q) {cls : Class}
    (hcls : ∀ name fn, cls.methods.find? name = some fn → Q fn.decl) :
    (h.newClass cls).1.Holds Q where
  functions := hholds.functions
  methods c cls' name fn hc hfn := by
    simp only [Heap.class?, Heap.newClass, Array.getElem?_push] at hc
    split at hc
    · cases hc
      exact hcls name fn hfn
    · exact hholds.methods c cls' name fn hc hfn

/-- The method that a class has is one that some class declared. -/
theorem method? (hholds : h.Holds Q) {c : ClassId} {name : Text} {fn : Function}
    (hfn : h.method? c name = some fn) : Q fn.decl := by
  obtain ⟨c', cls, hc, hm⟩ := Heap.exists_class_of_method? hfn
  exact hholds.methods c' cls name fn hc hm

end Heap.Holds

end TanLang
