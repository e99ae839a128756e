import Mathlib.Data.Fintype.Card
import TanLang.Proofs.Heap.Grounding
/-!
# The heap — classes and the classes above them

A class has the methods it declares and, for the other names, those of the
nearest class above it that declares one. In a hierarchy the superclasses are
there and no class is above itself. So there are more classes than steps on
the way up, and **the search for a method ends at the nearest class that has
it**. Whatever is declared later, the classes there are keep their methods.
-/

namespace TanLang

namespace Heap

variable {h h' h'' : Heap} {name : Text} {c c' : ClassId} {cls : Class} {f : Function} {k n : Nat}

/-! ## Hierarchies -/

/-- The class so many steps above a class. -/
def above (h : Heap) : Nat → ClassId → Option ClassId
  | 0, c => some c
  | k + 1, c => ((h.class? c).bind Class.superclass).bind (above h k)

/-- **An acyclic class hierarchy**: every superclass is there, and no class is
above itself. -/
structure Hierarchy (h : Heap) : Prop where
  there : ∀ c cls sup, h.class? c = some cls → cls.superclass = some sup →
    (h.class? sup).isSome = true
  acyclic : ∀ c k, h.above (k + 1) c ≠ some c

theorem above_succ {sup : ClassId} (hc : h.class? c = some cls) (hsup : cls.superclass = some sup) :
    h.above (k + 1) c = h.above k sup := by
  rw [above, hc, Option.bind_some, hsup, Option.bind_some]

theorem above_add (j k : Nat) (c : ClassId) :
    h.above (j + k) c = (h.above j c).bind (h.above k) := by
  induction j generalizing c with
  | zero => rw [Nat.zero_add, above, Option.bind_some]
  | succ j ih =>
    rw [Nat.succ_add, above, above]
    cases (h.class? c).bind Class.superclass with
    | none => rfl
    | some sup => exact ih sup

/-- Where each class was made after its superclass, no class is above itself. -/
theorem hierarchy_of_lt (hlt : ∀ c cls sup, h.class? c = some cls → cls.superclass = some sup →
    sup.index < c.index) : h.Hierarchy where
  there c cls sup hc hsup := by
    have hsize : c.index < h.classes.size := (Array.getElem?_eq_some_iff.1 hc).1
    have hbefore := hlt c cls sup hc hsup
    rw [class?, Array.getElem?_eq_getElem (by omega)]
    rfl
  acyclic c k hcycle := by
    have hdown : ∀ k c c', h.above k c = some c' → c'.index + k ≤ c.index := by
      intro k
      induction k with
      | zero =>
        rintro c _ ⟨⟩
        exact Nat.le_refl _
      | succ k ih =>
        intro c c' hc'
        obtain ⟨sup, hstep, hrest⟩ := Option.bind_eq_some_iff.1 hc'
        obtain ⟨cls, hc, hsup⟩ := Option.bind_eq_some_iff.1 hstep
        have hbefore := hlt c cls sup hc hsup
        have hle := ih sup c' hrest
        omega
    have hle := hdown (k + 1) c c hcycle
    omega

/-- Whatever a session builds is one. -/
theorem Grounded.hierarchy (hh : h.Grounded) : h.Hierarchy :=
  hierarchy_of_lt fun c cls sup hc hsup => (hh.classes c cls hc).superclass sup hsup

namespace Hierarchy

/-- What is above a class that is there is there. -/
theorem isSome_above (hh : h.Hierarchy) (hc : (h.class? c).isSome = true)
    (hup : h.above k c = some c') : (h.class? c').isSome = true := by
  induction k generalizing c with
  | zero =>
    cases hup
    exact hc
  | succ k ih =>
    obtain ⟨sup, hstep, hrest⟩ := Option.bind_eq_some_iff.1 hup
    obtain ⟨cls, hcls, hsup⟩ := Option.bind_eq_some_iff.1 hstep
    exact ih (hh.there c cls sup hcls hsup) hrest

/-- Two numbers of steps lead to two classes. -/
theorem above_injective (hh : h.Hierarchy) {i j : Nat} (hi : h.above i c = some c')
    (hj : h.above j c = some c') : i = j := by
  have hnot : ∀ i d, h.above i c = some c' → h.above (i + (d + 1)) c ≠ some c' := by
    intro i d hi hj
    rw [above_add, hi, Option.bind_some] at hj
    exact hh.acyclic c' d hj
  rcases Nat.lt_trichotomy i j with hlt | heq | hlt
  · obtain ⟨d, rfl⟩ : ∃ d, j = i + (d + 1) := ⟨j - i - 1, by omega⟩
    exact absurd hj (hnot i d hi)
  · exact heq
  · obtain ⟨d, rfl⟩ : ∃ d, i = j + (d + 1) := ⟨i - j - 1, by omega⟩
    exact absurd hi (hnot j d hj)

/-- **There are more classes than steps on the way up.** The classes passed on
the way are all different, so there are no more of them than classes. -/
theorem steps_lt (hh : h.Hierarchy) (hc : (h.class? c).isSome = true)
    (hup : h.above k c = some c') : k < h.classes.size := by
  have hpassed : ∀ j : Fin (k + 1), ∃ d, h.above j c = some d ∧ d.index < h.classes.size := by
    intro j
    have hsplit : h.above (j + (k - j)) c = some c' := by
      rw [Nat.add_sub_cancel' (Nat.lt_succ_iff.1 j.2), hup]
    rw [above_add] at hsplit
    obtain ⟨d, hd, -⟩ := Option.bind_eq_some_iff.1 hsplit
    obtain ⟨cls, hcls⟩ := Option.isSome_iff_exists.1 (hh.isSome_above hc hd)
    exact ⟨d, hd, (Array.getElem?_eq_some_iff.1 hcls).1⟩
  choose passed hpassed using hpassed
  have hinjective : Function.Injective fun j => (⟨(passed j).index, (hpassed j).2⟩ :
      Fin h.classes.size) := by
    intro i j hij
    have hsame : passed i = passed j := by
      have hindex := congrArg Fin.val hij
      exact congrArg ClassId.mk hindex
    refine Fin.ext (hh.above_injective (hpassed i).1 ?_)
    rw [hsame]
    exact (hpassed j).1
  have hcard := Fintype.card_le_of_injective _ hinjective
  rwa [Fintype.card_fin, Fintype.card_fin] at hcard

end Hierarchy

/-! ## The nearest method -/

/-- **A class has a method**: its own, or else the one that the class above it
has. -/
inductive Inherits (h : Heap) (name : Text) : ClassId → Function → Prop where
  | own {c : ClassId} {cls : Class} {f : Function} (hc : h.class? c = some cls)
      (hf : cls.methods.find? name = some f) : Inherits h name c f
  | above {c sup : ClassId} {cls : Class} {f : Function} (hc : h.class? c = some cls)
      (hfree : cls.methods.find? name = none) (hsup : cls.superclass = some sup)
      (hrest : Inherits h name sup f) : Inherits h name c f

/-- What the search finds is the nearest method. -/
theorem inherits_of_methodWithin (hf : h.methodWithin name n c = some f) :
    h.Inherits name c f := by
  induction n generalizing c with
  | zero => cases hf
  | succ n ih =>
    rw [methodWithin] at hf
    cases hc : h.class? c with
    | none =>
      rw [hc] at hf
      cases hf
    | some cls =>
      simp only [hc] at hf
      cases hm : cls.methods.find? name with
      | some m =>
        simp only [hm] at hf
        cases hf
        exact .own hc hm
      | none =>
        simp only [hm] at hf
        cases hsup : cls.superclass with
        | none =>
          simp only [hsup] at hf
          cases hf
        | some sup =>
          simp only [hsup] at hf
          exact .above hc hm hsup (ih hf)

/-! ## Classes that are there to stay -/

/-- **The classes there are stay as they are.** -/
def ClassesLast (h h' : Heap) : Prop := ∀ c cls, h.class? c = some cls → h'.class? c = some cls

theorem ClassesLast.refl (h : Heap) : h.ClassesLast h := fun _ _ hc => hc

theorem ClassesLast.trans (first : h.ClassesLast h') (second : h'.ClassesLast h'') :
    h.ClassesLast h'' :=
  fun c cls hc => second c cls (first c cls hc)

theorem ClassesLast.of_eq (heq : h'.classes = h.classes) : h.ClassesLast h' := by
  intro c cls hc
  rwa [class?, heq]

theorem ClassesLast.size_le (hlast : h.ClassesLast h') : h.classes.size ≤ h'.classes.size := by
  cases hsize : h.classes.size with
  | zero => exact Nat.zero_le _
  | succ n =>
    have hn : n < h.classes.size := by omega
    exact (Array.getElem?_eq_some_iff.1 (hlast ⟨n⟩ _ (Array.getElem?_eq_getElem hn))).1

/-- The search finds the nearest method once it is given more steps than there
are on the way up to it. -/
theorem Inherits.methodWithin (hf : h.Inherits name c f) (hlast : h.ClassesLast h') :
    ∃ k c', h.above k c = some c' ∧ ∀ n, k < n → h'.methodWithin name n c = some f := by
  induction hf with
  | @own c cls f hc hm =>
    refine ⟨0, c, rfl, fun n hn => ?_⟩
    obtain ⟨n, rfl⟩ : ∃ m, n = m + 1 := ⟨n - 1, by omega⟩
    simp only [Heap.methodWithin, hlast _ _ hc, hm]
  | above hc hfree hsup _ ih =>
    obtain ⟨k, c', hup, hfound⟩ := ih
    refine ⟨k + 1, c', (above_succ hc hsup).trans hup, fun n hn => ?_⟩
    obtain ⟨n, rfl⟩ : ∃ m, n = m + 1 := ⟨n - 1, by omega⟩
    simp only [Heap.methodWithin, hlast _ _ hc, hfree, hsup]
    exact hfound n (Nat.lt_of_succ_lt_succ hn)

namespace Hierarchy

/-- A class that is there comes to have no other methods. -/
theorem inherits_of_last (hh : h.Hierarchy) (hlast : h.ClassesLast h')
    (hc : (h.class? c).isSome = true) (hf : h'.Inherits name c f) : h.Inherits name c f := by
  induction hf with
  | own hc' hm =>
    obtain ⟨cls, hcls⟩ := Option.isSome_iff_exists.1 hc
    cases (hlast _ _ hcls).symm.trans hc'
    exact .own hcls hm
  | above hc' hfree hsup _ ih =>
    obtain ⟨cls, hcls⟩ := Option.isSome_iff_exists.1 hc
    cases (hlast _ _ hcls).symm.trans hc'
    exact .above hcls hfree hsup (ih (hh.there _ _ _ hcls hsup))

/-- **The method that a class has is that of the nearest class on the way up
that declares one**, also after other classes have been declared. -/
theorem method?_eq_some_iff (hh : h.Hierarchy) (hlast : h.ClassesLast h')
    (hc : (h.class? c).isSome = true) : h'.method? c name = some f ↔ h.Inherits name c f := by
  constructor
  · exact fun hf => hh.inherits_of_last hlast hc (inherits_of_methodWithin hf)
  · intro hf
    obtain ⟨k, c', hup, hfound⟩ := hf.methodWithin hlast
    exact hfound _ (Nat.lt_of_lt_of_le (hh.steps_lt hc hup) hlast.size_le)

theorem method?_eq (hh : h.Hierarchy) (hlast : h.ClassesLast h')
    (hc : (h.class? c).isSome = true) (name : Text) : h'.method? c name = h.method? c name :=
  Option.ext fun _ =>
    (hh.method?_eq_some_iff hlast hc).trans (hh.method?_eq_some_iff (.refl h) hc).symm

end Hierarchy

end Heap

end TanLang
