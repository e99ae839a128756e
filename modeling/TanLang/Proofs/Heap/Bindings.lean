import TanLang.Proofs.Evaluation.Preservation
import TanLang.Proofs.Heap.Changes
/-!
# The heap — the binding that a scope sees

Scopes are shared: any number of scopes can lie inside one, and all of them
see what is bound there, unless a scope on the way binds the name as well. A
scope is in sight if no such scope is on the way. **A lookup finds the nearest
binding**, which is the one at the least distance, and a write to a binding is
seen from the scopes that have it in sight, from all of them and from no
others.

This holds of every forest of scopes, in whatever order it was made and
written to, because a scope is made after the one around it. So no way out
comes back to where it was, and the scopes are at least as many as the steps
on the way.
-/

namespace TanLang

namespace Heap

variable {h h' : Heap} {s t u : ScopeId} {x y : Text} {v : Value} {d e n : Nat}

/-! ## Forests -/

/-- **A forest of scopes**: what any number of operations on scopes make of a
heap that has none. -/
inductive Forest : Heap → Prop where
  | start {h : Heap} (hnone : h.scopes = #[]) : Forest h
  | new {h : Heap} (hh : Forest h) : Forest (h.newScope none).1
  | enclose {h : Heap} {s : ScopeId} (hh : Forest h) (hs : (h.scope? s).isSome = true) :
      Forest (h.newScope (some s)).1
  | define {h : Heap} (hh : Forest h) (s : ScopeId) (x : Text) (v : Value) :
      Forest (h.define s x v)
  | assign {h h' : Heap} {s : ScopeId} {x : Text} {v : Value} (hh : Forest h)
      (hdone : h.assign s x v = some h') : Forest h'
  | assignAt {h h' : Heap} {s : ScopeId} {d : Nat} {x : Text} {v : Value} (hh : Forest h)
      (hdone : h.assignAt s d x v = some h') : Forest h'

/-- Every scope was made after the one around it. -/
def Nested (h : Heap) : Prop :=
  ∀ s scope outer, h.scope? s = some scope → scope.outer = some outer → outer.index < s.index

/-- What is around a scope does not change where a name is bound. -/
theorem outer_define (s t : ScopeId) (x : Text) (v : Value) :
    ((h.define t x v).scope? s).map Scope.outer = (h.scope? s).map Scope.outer := by
  rw [scope?_define]
  split
  · rename_i hst
    rw [hst, Option.map_map]
    rfl
  · rfl

theorem Nested.define (hh : h.Nested) (s : ScopeId) (x : Text) (v : Value) :
    (h.define s x v).Nested := by
  intro t scope outer hscope houter
  have hsame := outer_define (h := h) t s x v
  rw [hscope, Option.map_some, houter] at hsame
  obtain ⟨scope', hscope', houter'⟩ := Option.map_eq_some_iff.1 hsame.symm
  exact hh t scope' outer hscope' houter'

theorem Nested.newScope (hh : h.Nested) {outer : Option ScopeId}
    (houter : ∀ s, outer = some s → (h.scope? s).isSome = true) :
    (h.newScope outer).1.Nested := by
  intro t scope around hscope haround
  rw [scope?_newScope] at hscope
  split at hscope
  · rename_i hnew
    cases hscope
    rw [hnew]
    exact h.index_lt_newScope (houter around haround)
  · exact hh t scope around hscope haround

/-- **In a forest the order of creation is the order of nesting.** -/
theorem Forest.nested (hh : Forest h) : h.Nested := by
  induction hh with
  | start hnone =>
    intro s scope outer hscope
    rw [scope?, hnone] at hscope
    simp at hscope
  | new _ ih =>
    refine ih.newScope ?_
    rintro _ ⟨⟩
  | enclose _ hs ih =>
    refine ih.newScope ?_
    rintro _ ⟨⟩
    exact hs
  | define _ s x v ih => exact ih.define s x v
  | assign _ hdone ih =>
    obtain ⟨t, -, rfl⟩ := Option.map_eq_some_iff.1 hdone
    exact ih.define t _ _
  | assignAt _ hdone ih =>
    obtain ⟨t, -, rfl⟩ := Option.map_eq_some_iff.1 hdone
    exact ih.define t _ _

/-! ## The way out -/

/-- A step on the way out leads to the scope around, if there is one. -/
theorem ancestor_succ_eq_some_iff : h.ancestor s (d + 1) = some t ↔
    ∃ scope outer, h.scope? s = some scope ∧ scope.outer = some outer ∧
      h.ancestor outer d = some t := by
  constructor
  · intro ht
    rw [ancestor, outwards] at ht
    cases hscope : h.scope? s with
    | none =>
      rw [hscope] at ht
      cases d <;> cases ht
    | some scope =>
      rw [hscope, Option.bind_some] at ht
      cases houter : scope.outer with
      | none =>
        rw [houter] at ht
        cases d <;> cases ht
      | some outer =>
        rw [houter] at ht
        exact ⟨scope, outer, rfl, houter, ht⟩
  · rintro ⟨scope, outer, hscope, houter, ht⟩
    rw [Eval.ancestor_succ hscope houter, ht]

/-- The way out does not change where a name is bound. -/
theorem ancestor_define (s t : ScopeId) (x : Text) (v : Value) (d : Nat) :
    (h.define t x v).ancestor s d = h.ancestor s d := by
  induction d generalizing s with
  | zero => rfl
  | succ d ih =>
    have hsame := outer_define (h := h) s t x v
    refine Option.ext fun u => ?_
    simp only [ancestor_succ_eq_some_iff, ih]
    constructor
    · rintro ⟨scope, outer, hscope, houter, hu⟩
      rw [hscope, Option.map_some, houter] at hsame
      obtain ⟨scope', hscope', houter'⟩ := Option.map_eq_some_iff.1 hsame.symm
      exact ⟨scope', outer, hscope', houter', hu⟩
    · rintro ⟨scope, outer, hscope, houter, hu⟩
      rw [hscope, Option.map_some, houter] at hsame
      obtain ⟨scope', hscope', houter'⟩ := Option.map_eq_some_iff.1 hsame
      exact ⟨scope', outer, hscope', houter', hu⟩

/-- Where the way out leads on to a scope, it came from scopes that are
there. -/
theorem isSome_scope?_of_ancestor (ht : h.ancestor s d = some t)
    (hthere : (h.scope? t).isSome = true) : (h.scope? s).isSome = true := by
  cases d with
  | zero =>
    cases ht
    exact hthere
  | succ d =>
    obtain ⟨scope, outer, hscope, -, -⟩ := ancestor_succ_eq_some_iff.1 ht
    rw [hscope]
    rfl

namespace Nested

/-- **Each step on the way out goes to a scope that was made earlier.** -/
theorem index_ancestor_le (hh : h.Nested) (ht : h.ancestor s d = some t) :
    t.index + d ≤ s.index := by
  induction d generalizing s with
  | zero =>
    cases ht
    exact Nat.le_refl _
  | succ d ih =>
    obtain ⟨scope, outer, hscope, houter, ht⟩ := ancestor_succ_eq_some_iff.1 ht
    have hstep := hh s scope outer hscope houter
    have hrest := ih ht
    omega

/-- Scopes at two distances are two scopes. -/
theorem index_ancestor_lt (hh : h.Nested) (ht : h.ancestor s d = some t)
    (hu : h.ancestor s e = some u) (hlt : e < d) : t.index < u.index := by
  induction e generalizing s d with
  | zero =>
    cases hu
    have hle := hh.index_ancestor_le ht
    omega
  | succ e ih =>
    obtain ⟨d, rfl⟩ : ∃ k, d = k + 1 := ⟨d - 1, by omega⟩
    obtain ⟨scope, outer, hscope, houter, ht⟩ := ancestor_succ_eq_some_iff.1 ht
    obtain ⟨scope', outer', hscope', houter', hu⟩ := ancestor_succ_eq_some_iff.1 hu
    cases hscope.symm.trans hscope'
    cases houter.symm.trans houter'
    exact ih ht hu (Nat.lt_of_succ_lt_succ hlt)

/-- What is on the way out from a scope that is there is there. -/
theorem isSome_scope?_ancestor (hh : h.Nested) (hs : (h.scope? s).isSome = true)
    (ht : h.ancestor s d = some t) : (h.scope? t).isSome = true := by
  obtain ⟨scope, hscope⟩ := Option.isSome_iff_exists.1 hs
  have hsize : s.index < h.scopes.size := (Array.getElem?_eq_some_iff.1 hscope).1
  have hle := hh.index_ancestor_le ht
  rw [scope?, Array.getElem?_eq_getElem (by omega)]
  rfl

/-- **There are more scopes than steps on the way out to one that is there.** -/
theorem distance_lt (hh : h.Nested) (ht : h.ancestor s d = some t)
    (hthere : (h.scope? t).isSome = true) : d < h.scopes.size := by
  obtain ⟨scope, hscope⟩ := Option.isSome_iff_exists.1 (isSome_scope?_of_ancestor ht hthere)
  have hs : s.index < h.scopes.size := (Array.getElem?_eq_some_iff.1 hscope).1
  have hle := hh.index_ancestor_le ht
  omega

end Nested

/-! ## Scopes in sight -/

/-- **A scope is in sight for a name**, at a distance: it lies so many scopes
out, and none of the scopes before it binds the name. -/
structure InSight (h : Heap) (x : Text) (s t : ScopeId) (d : Nat) : Prop where
  out : h.ancestor s d = some t
  clear : ∀ e < d, ∀ u, h.ancestor s e = some u → h.boundIn u x = none

/-- **The nearest binding of a name**: it is in sight. -/
structure Nearest (h : Heap) (x : Text) (s t : ScopeId) (d : Nat) : Prop
    extends InSight h x s t d where
  bound : (h.boundIn t x).isSome = true

/-- Some scope on the way out binds a name. -/
def Binds (h : Heap) (x : Text) (s : ScopeId) : Prop :=
  ∃ d t, h.ancestor s d = some t ∧ (h.boundIn t x).isSome = true

theorem isSome_scope?_of_boundIn (hx : (h.boundIn s x).isSome = true) :
    (h.scope? s).isSome = true := by
  obtain ⟨scope, hscope, -⟩ := h.boundIn_eq_some.1 hx
  rw [hscope]
  rfl

theorem nearest_zero_iff : h.Nearest x s t 0 ↔ t = s ∧ (h.boundIn s x).isSome = true := by
  constructor
  · rintro ⟨⟨⟨⟩, -⟩, hbound⟩
    exact ⟨rfl, hbound⟩
  · rintro ⟨rfl, hbound⟩
    exact ⟨⟨rfl, fun e he => absurd he (Nat.not_lt_zero e)⟩, hbound⟩

theorem nearest_succ_iff : h.Nearest x s t (d + 1) ↔
    h.boundIn s x = none ∧ ∃ scope outer, h.scope? s = some scope ∧ scope.outer = some outer ∧
      h.Nearest x outer t d := by
  constructor
  · rintro ⟨⟨hout, hclear⟩, hbound⟩
    obtain ⟨scope, outer, hscope, houter, hout⟩ := ancestor_succ_eq_some_iff.1 hout
    refine ⟨hclear 0 (Nat.succ_pos d) s rfl, scope, outer, hscope, houter, ⟨hout, ?_⟩, hbound⟩
    intro e he u hu
    exact hclear (e + 1) (Nat.succ_lt_succ he) u ((Eval.ancestor_succ hscope houter).trans hu)
  · rintro ⟨hfree, scope, outer, hscope, houter, ⟨hout, hclear⟩, hbound⟩
    refine ⟨⟨(Eval.ancestor_succ hscope houter).trans hout, ?_⟩, hbound⟩
    intro e he u hu
    cases e with
    | zero =>
      cases hu
      exact hfree
    | succ e =>
      rw [Eval.ancestor_succ hscope houter] at hu
      exact hclear e (Nat.lt_of_succ_lt_succ he) u hu

/-- If a name is bound on the way out, it is bound somewhere first. -/
theorem exists_nearest_iff : (∃ t d, h.Nearest x s t d) ↔ h.Binds x s := by
  constructor
  · rintro ⟨t, d, hnearest⟩
    exact ⟨d, t, hnearest.out, hnearest.bound⟩
  · rintro ⟨d, t, hout, hbound⟩
    induction d generalizing s with
    | zero =>
      cases hout
      exact ⟨_, 0, nearest_zero_iff.2 ⟨rfl, hbound⟩⟩
    | succ d ih =>
      obtain ⟨scope, outer, hscope, houter, hout⟩ := ancestor_succ_eq_some_iff.1 hout
      cases hfree : h.boundIn s x with
      | some w => exact ⟨s, 0, nearest_zero_iff.2 ⟨rfl, by rw [hfree]; rfl⟩⟩
      | none =>
        obtain ⟨t', d', hnearest⟩ := ih hout
        exact ⟨t', d' + 1, nearest_succ_iff.2 ⟨hfree, scope, outer, hscope, houter, hnearest⟩⟩

/-! ## Lookups -/

/-- The search for a name stops at its nearest binding. -/
theorem holderWithin_eq_some_iff :
    h.holderWithin x n s = some t ↔ ∃ d < n, h.Nearest x s t d := by
  induction n generalizing s with
  | zero => simp [holderWithin]
  | succ n ih =>
    rw [holderWithin]
    cases hscope : h.scope? s with
    | none =>
      have hfree : h.boundIn s x = none := by rw [boundIn, hscope]; rfl
      refine iff_of_false (Option.some_ne_none t).symm ?_
      rintro ⟨d, -, hnearest⟩
      cases d with
      | zero =>
        obtain ⟨-, hbound⟩ := nearest_zero_iff.1 hnearest
        rw [hfree] at hbound
        cases hbound
      | succ d =>
        obtain ⟨-, scope, -, hscope', -⟩ := nearest_succ_iff.1 hnearest
        cases hscope.symm.trans hscope'
    | some scope =>
      have hbinds : (h.boundIn s x).isSome = scope.values.contains x := by
        rw [boundIn, hscope]
        rfl
      cases hcontains : scope.values.contains x with
      | true =>
        rw [hcontains] at hbinds
        simp only [hcontains, if_true, Option.some.injEq]
        constructor
        · rintro rfl
          exact ⟨0, Nat.succ_pos n, nearest_zero_iff.2 ⟨rfl, hbinds⟩⟩
        · rintro ⟨d, -, hnearest⟩
          cases d with
          | zero => exact (nearest_zero_iff.1 hnearest).1.symm
          | succ d =>
            rw [(nearest_succ_iff.1 hnearest).1] at hbinds
            cases hbinds
      | false =>
        rw [hcontains, Option.isSome_eq_false_iff, Option.isNone_iff_eq_none] at hbinds
        -- the search goes on in the scope around, if there is one
        have hrest : (∃ d < n + 1, h.Nearest x s t d) ↔
            ∃ outer, scope.outer = some outer ∧ ∃ d < n, h.Nearest x outer t d := by
          constructor
          · rintro ⟨d, hd, hnearest⟩
            cases d with
            | zero =>
              obtain ⟨-, hbound⟩ := nearest_zero_iff.1 hnearest
              rw [hbinds] at hbound
              cases hbound
            | succ d =>
              obtain ⟨-, scope', outer, hscope', houter, hnearest⟩ := nearest_succ_iff.1 hnearest
              cases hscope.symm.trans hscope'
              exact ⟨outer, houter, d, Nat.lt_of_succ_lt_succ hd, hnearest⟩
          · rintro ⟨outer, houter, d, hd, hnearest⟩
            exact ⟨d + 1, Nat.succ_lt_succ hd,
              nearest_succ_iff.2 ⟨hbinds, scope, outer, hscope, houter, hnearest⟩⟩
        rw [hrest]
        simp only [hcontains, Bool.false_eq_true, if_false]
        cases houter : scope.outer with
        | none => simp
        | some outer => simp [ih]

/-- **The scope that holds a name is that of its nearest binding.** -/
theorem Nested.holder_eq_some_iff (hh : h.Nested) :
    h.holder s x = some t ↔ ∃ d, h.Nearest x s t d := by
  rw [holder, holderWithin_eq_some_iff]
  constructor
  · rintro ⟨d, -, hnearest⟩
    exact ⟨d, hnearest⟩
  · rintro ⟨d, hnearest⟩
    exact ⟨d, hh.distance_lt hnearest.out (isSome_scope?_of_boundIn hnearest.bound), hnearest⟩

/-- There is one nearest binding. -/
theorem Nested.nearest_unique (hh : h.Nested) (ht : h.Nearest x s t d) (hu : h.Nearest x s u e) :
    t = u :=
  Option.some.inj ((hh.holder_eq_some_iff.2 ⟨d, ht⟩).symm.trans (hh.holder_eq_some_iff.2 ⟨e, hu⟩))

/-- A lookup reads the nearest binding. -/
theorem Nested.lookup_eq_some_iff (hh : h.Nested) :
    h.lookup s x = some v ↔ ∃ t d, h.InSight x s t d ∧ h.boundIn t x = some v := by
  rw [lookup, Option.bind_eq_some_iff]
  constructor
  · rintro ⟨t, hholder, hbound⟩
    obtain ⟨d, hnearest⟩ := hh.holder_eq_some_iff.1 hholder
    exact ⟨t, d, hnearest.toInSight, hbound⟩
  · rintro ⟨t, d, hsight, hbound⟩
    exact ⟨t, hh.holder_eq_some_iff.2 ⟨d, hsight, by rw [hbound]; rfl⟩, hbound⟩

theorem Nested.isSome_holder_iff (hh : h.Nested) : (h.holder s x).isSome = true ↔ h.Binds x s := by
  rw [Option.isSome_iff_exists, ← exists_nearest_iff]
  simp only [hh.holder_eq_some_iff]

theorem Nested.isSome_lookup_iff (hh : h.Nested) : (h.lookup s x).isSome = true ↔ h.Binds x s := by
  rw [← hh.isSome_holder_iff, lookup]
  cases hholder : h.holder s x with
  | none => rfl
  | some t => simp [isSome_boundIn_of_holder hholder]

/-- **A lookup agrees with the read at the least distance.** -/
theorem Nested.lookup_eq_getAt (hh : h.Nested) (hnearest : h.Nearest x s t d) :
    h.lookup s x = h.getAt s d x := by
  obtain ⟨v, hv⟩ := Option.isSome_iff_exists.1 hnearest.bound
  rw [getAt, hnearest.out, Option.map_some, hv, Option.getD_some]
  exact hh.lookup_eq_some_iff.2 ⟨t, d, hnearest.toInSight, hv⟩

/-! ## Writes -/

/-- **One binding is another after a write**, and nothing else in the heap. -/
structure Rebound (h h' : Heap) (t : ScopeId) (x : Text) (v : Value) : Prop where
  bound : h'.boundIn t x = some v
  others : ∀ s y, s ≠ t ∨ y ≠ x → h'.boundIn s y = h.boundIn s y
  outers : ∀ s, (h'.scope? s).map Scope.outer = (h.scope? s).map Scope.outer
  rest : h' = { h with scopes := h'.scopes }

/-- **A write is seen from the scopes told, and from no others**: a lookup of
the name from one of them reads the new value, and every other lookup what it
read before. -/
structure SeenFrom (h h' : Heap) (x : Text) (v : Value) (From : ScopeId → Prop) : Prop where
  seen : ∀ s, From s → h'.lookup s x = some v
  unseen : ∀ s y, ¬ (From s ∧ y = x) → h'.lookup s y = h.lookup s y

theorem SeenFrom.congr {From From' : ScopeId → Prop} (hseen : SeenFrom h h' x v From)
    (hfrom : ∀ s, From s ↔ From' s) : SeenFrom h h' x v From' where
  seen s hs := hseen.seen s ((hfrom s).2 hs)
  unseen s y hs := hseen.unseen s y fun ⟨hfrom', hy⟩ => hs ⟨(hfrom s).1 hfrom', hy⟩

theorem rebound_define (ht : (h.scope? t).isSome = true) :
    Rebound h (h.define t x v) t x v where
  bound := by
    obtain ⟨scope, hscope⟩ := Option.isSome_iff_exists.1 ht
    rw [boundIn, scope?_define, if_pos rfl, hscope]
    exact Table.find?_insert_self _ _ _
  others s y hne := by
    rw [boundIn, boundIn, scope?_define]
    split
    · rename_i hst
      subst hst
      have hy : y ≠ x := hne.resolve_left fun hss => hss rfl
      cases h.scope? s with
      | none => rfl
      | some scope => exact Table.find?_insert_of_ne _ _ hy
    · rfl
  outers s := outer_define s t x v
  rest := rfl

/-- A name that is bound where it was is in sight of the same scopes. -/
theorem inSight_congr (hout : ∀ s d, h'.ancestor s d = h.ancestor s d)
    (hbound : ∀ u, h'.boundIn u x = none ↔ h.boundIn u x = none) :
    h'.InSight x s t d ↔ h.InSight x s t d := by
  constructor
  · rintro ⟨hto, hclear⟩
    exact ⟨(hout s d).symm.trans hto, fun e he u hu =>
      (hbound u).1 (hclear e he u ((hout s e).trans hu))⟩
  · rintro ⟨hto, hclear⟩
    exact ⟨(hout s d).trans hto, fun e he u hu =>
      (hbound u).2 (hclear e he u ((hout s e).symm.trans hu))⟩

/-- **A name bound in a scope is seen from the scopes that have it in sight.** -/
theorem Nested.seen_define (hh : h.Nested) (ht : (h.scope? t).isSome = true) :
    SeenFrom h (h.define t x v) x v fun s => ∃ d, h.InSight x s t d := by
  have hwrite := rebound_define (x := x) (v := v) ht
  have hnested := hh.define t x v
  have hout := fun s d => ancestor_define (h := h) s t x v d
  have helse : ∀ u, u ≠ t → (h.define t x v).boundIn u x = h.boundIn u x :=
    fun u hu => hwrite.others u x (.inl hu)
  constructor
  case seen =>
    rintro s ⟨d, hsight⟩
    refine hnested.lookup_eq_some_iff.2 ⟨t, d, ⟨(hout s d).trans hsight.out, ?_⟩, hwrite.bound⟩
    intro e he u hu
    rw [hout] at hu
    -- a scope on the way to `t` is not `t`, so what it binds is what it bound
    have hne : u ≠ t := by
      rintro rfl
      exact Nat.lt_irrefl _ (hh.index_ancestor_lt hsight.out hu he)
    rw [helse u hne]
    exact hsight.clear e he u hu
  case unseen =>
    intro s y hunseen
    by_cases hy : y = x
    · subst hy
      have hfar : ∀ d, ¬ h.InSight y s t d := fun d hsight => hunseen ⟨⟨d, hsight⟩, rfl⟩
      -- what is unbound after the write was unbound, and is not `t`
      have hfree : ∀ u, (h.define t y v).boundIn u y = none → u ≠ t ∧ h.boundIn u y = none := by
        intro u hu
        have hne : u ≠ t := by
          rintro rfl
          rw [hwrite.bound] at hu
          cases hu
        exact ⟨hne, (helse u hne).symm.trans hu⟩
      refine Option.ext fun w => ?_
      rw [hnested.lookup_eq_some_iff, hh.lookup_eq_some_iff]
      constructor
      · rintro ⟨u, d, ⟨hto, hclear⟩, hbound⟩
        have hsight : h.InSight y s u d := ⟨(hout s d).symm.trans hto, fun e he u' hu' =>
          (hfree u' (hclear e he u' ((hout s e).trans hu'))).2⟩
        have hne : u ≠ t := by
          rintro rfl
          exact hfar d hsight
        exact ⟨u, d, hsight, (helse u hne).symm.trans hbound⟩
      · rintro ⟨u, d, hsight, hbound⟩
        have hne : u ≠ t := by
          rintro rfl
          exact hfar d hsight
        refine ⟨u, d, ⟨(hout s d).trans hsight.out, fun e he u' hu' => ?_⟩,
          (helse u hne).trans hbound⟩
        rw [hout] at hu'
        have hne' : u' ≠ t := by
          rintro rfl
          exact hfar e ⟨hu', fun e' he' => hsight.clear e' (Nat.lt_trans he' he)⟩
        rw [helse u' hne']
        exact hsight.clear e he u' hu'
    · refine Option.ext fun w => ?_
      have hsame := fun u => hwrite.others u y (.inr hy)
      rw [hnested.lookup_eq_some_iff, hh.lookup_eq_some_iff]
      simp only [inSight_congr hout fun u => by rw [hsame u], hsame]

/-- A binding that is there is in sight where it is the nearest one. -/
theorem nearest_iff_inSight (hx : (h.boundIn t x).isSome = true) :
    (∃ d, h.InSight x s t d) ↔ ∃ d, h.Nearest x s t d :=
  exists_congr fun _ => ⟨fun hsight => ⟨hsight, hx⟩, fun hnearest => hnearest.toInSight⟩

/-! ## The laws of the store -/

/-- **What reading and writing a name from a scope do in a forest.** -/
structure StoreLaws (h : Heap) (s : ScopeId) (x : Text) : Prop where
  /-- A lookup succeeds exactly if some scope on the way out binds the name, -/
  found : (h.lookup s x).isSome = true ↔ h.Binds x s
  /-- and then it is the read at the least distance of such a scope. -/
  read : h.Binds x s → ∃ t d, h.Nearest x s t d ∧ h.lookup s x = h.getAt s d x
  /-- An assignment succeeds under the same condition, -/
  assignable : ∀ v, (h.assign s x v).isSome = true ↔ h.Binds x s
  /-- and then it changes the nearest binding only, which is seen exactly from
  the scopes whose nearest binding that is. -/
  assigned : ∀ v h', h.assign s x v = some h' → ∃ t d, h.Nearest x s t d ∧
    Rebound h h' t x v ∧ SeenFrom h h' x v fun s' => ∃ e, h.Nearest x s' t e
  /-- One that fails raises an error and changes nothing. -/
  unassigned : ¬ h.Binds x s → ∀ (rules : Rules) (name : Token) (address : Address) (v : Value)
    (m : Machine), rules.addressing = .chain → m.heap = h → m.active = s → name.lexeme = x →
      h.assign s x v = none ∧
        Action.write rules name address v m = .raised ⟨.undefinedVariable x, name⟩ m
  /-- A definition changes one binding of the scope it is made in, which is
  seen from the scopes that have it in sight. -/
  defined : ∀ v, Rebound h (h.define s x v) s x v ∧
    SeenFrom h (h.define s x v) x v fun s' => ∃ e, h.InSight x s' s e
  /-- An assignment by a distance changes one binding of the scope so many
  scopes out in the same way. -/
  assignedAt : ∀ d v h', h.assignAt s d x v = some h' → ∃ t, h.ancestor s d = some t ∧
    Rebound h h' t x v ∧ SeenFrom h h' x v fun s' => ∃ e, h.InSight x s' t e

theorem Nested.holder_eq_none (hh : h.Nested) (hfree : ¬ h.Binds x s) : h.holder s x = none := by
  rw [← Option.isNone_iff_eq_none, ← Option.isSome_eq_false_iff, Bool.eq_false_iff]
  exact fun hsome => hfree (hh.isSome_holder_iff.1 hsome)

/-- **The laws of the store** hold of every name, seen from every scope of
every forest. -/
theorem forest_store_laws (hh : Forest h) (s : ScopeId) (hs : (h.scope? s).isSome = true)
    (x : Text) : StoreLaws h s x where
  found := hh.nested.isSome_lookup_iff
  read hbinds := by
    obtain ⟨t, d, hnearest⟩ := exists_nearest_iff.2 hbinds
    exact ⟨t, d, hnearest, hh.nested.lookup_eq_getAt hnearest⟩
  assignable v := by
    rw [assign, Option.isSome_map]
    exact hh.nested.isSome_holder_iff
  assigned v h' hdone := by
    obtain ⟨t, hholder, rfl⟩ := Option.map_eq_some_iff.1 hdone
    obtain ⟨d, hnearest⟩ := hh.nested.holder_eq_some_iff.1 hholder
    have ht := isSome_scope?_of_boundIn hnearest.bound
    exact ⟨t, d, hnearest, rebound_define ht,
      (hh.nested.seen_define ht).congr fun _ => nearest_iff_inSight hnearest.bound⟩
  unassigned hfree rules name address v m hrules hheap hactive hname := by
    have hnone := hh.nested.holder_eq_none hfree
    subst hheap hactive hname
    refine ⟨by rw [assign, hnone]; rfl, ?_⟩
    simp only [Action.write, Machine.place, hrules, Machine.place.held, hnone]
  defined v := ⟨rebound_define hs, hh.nested.seen_define hs⟩
  assignedAt d v h' hdone := by
    obtain ⟨t, ht, rfl⟩ := Option.map_eq_some_iff.1 hdone
    have hthere := hh.nested.isSome_scope?_ancestor hs ht
    exact ⟨t, ht, rebound_define hthere, hh.nested.seen_define hthere⟩

/-- A global and two scopes inside it, one of which binds the name as well: an
assignment from the other is seen in the globals, and not where the name is
bound again. -/
theorem forest_store_laws_shadowed :
    let x := Text.ofString "x"
    let globals := ((Heap.newScope {} none).1.define ⟨0⟩ x (.bool true)).newScope (some ⟨0⟩)
    let h := (globals.1.newScope (some ⟨0⟩)).1.define ⟨2⟩ x (.bool false)
    Forest h ∧ (h.scope? ⟨1⟩).isSome = true ∧ ∃ h', h.assign ⟨1⟩ x .nil = some h' ∧
      h'.lookup ⟨0⟩ x = some .nil ∧ h'.lookup ⟨2⟩ x = some (.bool false) := by
  intro x globals h
  have hforest : Forest h := by
    have hglobals : Forest globals.1 :=
      ((Forest.new (.start (h := {}) rfl)).define ⟨0⟩ x _).enclose (by decide +kernel)
    exact (hglobals.enclose (by decide +kernel)).define ⟨2⟩ x _
  have hthere : (h.scope? ⟨1⟩).isSome = true := by decide +kernel
  have hbound : (h.boundIn ⟨0⟩ x).isSome = true := by decide +kernel
  have hfree : h.boundIn ⟨1⟩ x = none := by decide +kernel
  have hout : h.ancestor ⟨1⟩ 1 = some ⟨0⟩ := by decide +kernel
  have hshadow : h.lookup ⟨2⟩ x = some (.bool false) := by decide +kernel
  have hinner : h.boundIn ⟨2⟩ x = some (.bool false) := by decide +kernel
  clear_value h
  have laws := forest_store_laws hforest ⟨1⟩ hthere x
  obtain ⟨h', hh'⟩ := Option.isSome_iff_exists.1 ((laws.assignable .nil).2 ⟨1, ⟨0⟩, hout, hbound⟩)
  obtain ⟨t, d, hnearest, -, hseen⟩ := laws.assigned .nil h' hh'
  -- the nearest binding is the global one
  have hglobal : h.Nearest x ⟨1⟩ ⟨0⟩ 1 := by
    refine ⟨⟨hout, fun e he u hu => ?_⟩, hbound⟩
    obtain rfl : e = 0 := by omega
    cases hu
    exact hfree
  obtain rfl : t = ⟨0⟩ := hforest.nested.nearest_unique hnearest hglobal
  refine ⟨hforest, hthere, h', hh', hseen.seen ⟨0⟩ ⟨0, nearest_zero_iff.2 ⟨rfl, hbound⟩⟩, ?_⟩
  rw [hseen.unseen ⟨2⟩ x ?_, hshadow]
  rintro ⟨⟨e, hnear⟩, -⟩
  cases e with
  | zero => cases (nearest_zero_iff.1 hnear).1
  | succ e =>
    rw [(nearest_succ_iff.1 hnear).1] at hinner
    cases hinner

end Heap

end TanLang
