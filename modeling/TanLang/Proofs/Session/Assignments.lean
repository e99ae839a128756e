import TanLang.Proofs.Evaluation.Assignments
import TanLang.Proofs.Evaluation.Changes
import TanLang.Proofs.Session.Scopes
/-!
# Sessions — new names come from declarations

An assignment in a session gives a new value to a name that is there, or it
fails. The exception is an assignment to a local variable in the variable's
own initial value, which binds the variable before its declaration does. But
then the declaration is on its way in the same scope. So **every name that a
scope comes to bind is declared in it**: as a variable, function or class, as
a parameter, or as the `this` of a method that is bound.
-/

namespace TanLang

open Scoping

namespace Eval

variable {strict : Prop} {L : Ledger} {rules : Rules} {bound : Nat} {p : Program Address}
variable {m m' : Machine} {t : Task} {name : Token} {address : Address} {v : Value}

/-- **Whatever a program reaches fits a context** in which no names are in
the making but those of variables whose initial value is being evaluated. -/
theorem During.fitsIn (hrules : rules.addressing = .distance)
    (hduring : During rules bound p m t m') (hready : Ready strict L m)
    (hfits : BodyFits strict [] p) :
    ∃ L' Γ, Sound strict L' m'.heap ∧ t.FitsIn strict L' m' Γ ∧
      ∀ x, Γ.Makes x → InInitial rules (During rules bound p m) x t m' := by
  induction hduring generalizing L with
  | @first s rest m t m' hreach =>
    have hfirst : Task.FitsIn strict L m [] (.execute s) := ⟨hready.stands, hfits.1⟩
    obtain ⟨L', Γ, hsound, ht, hmakes⟩ := hreach.fitsIn hrules hready.sound hfirst
    refine ⟨L', Γ, hsound, ht, fun x hx => ?_⟩
    obtain ⟨hnone, -⟩ | hinitial := hmakes x hx
    · exact absurd hnone (Context.not_makes_nil x)
    · exact hinitial.mono fun _ _ h => .first h
  | @next s rest m c m₁ t m' hdone _ ih =>
    obtain ⟨hs, hrest⟩ := fits_cons_nil hfits
    obtain ⟨L', hready'⟩ := hready.of_execute hrules hs hdone
    obtain ⟨L'', Γ, hsound, ht, hmakes⟩ := ih hready' hrest
    exact ⟨L'', Γ, hsound, ht, fun x hx => (hmakes x hx).mono fun _ _ h => .next hdone h⟩

/-- **Every assignment that a program reaches overwrites**, or declares a
variable in the variable's own initial value. -/
theorem During.overwrites_or_declares (hrules : rules.addressing = .distance)
    (hduring : During rules bound p m (.write name address v) m') (hready : Ready strict L m)
    (hfits : BodyFits strict [] p) :
    Overwrites rules name address v m' ∨ Declares rules name address v m' ∧
      InInitial rules (During rules bound p m) name.lexeme (.write name address v) m' := by
  obtain ⟨L', Γ, hsound, ⟨hstands, hwrites⟩, hmakes⟩ := hduring.fitsIn hrules hready hfits
  exact (Eval.overwrites_or_declares hrules hsound hstands hwrites).imp_right
    fun ⟨hdeclares, hname⟩ => ⟨hdeclares, hmakes _ hname⟩

/-! ## New names -/

/-- An assignment that overwrites introduces no name. -/
theorem Overwrites.not_introduces (h : Overwrites rules name address v m)
    (hrules : rules.addressing = .distance) {s : ScopeId} {x : Text} :
    ¬ (Task.write name address v).Introduces rules m s x := by
  rintro ⟨hplace, rfl, hunbound⟩
  have hbound : (m.heap.boundIn s name.lexeme).isSome = true := by
    cases h with
    | done htarget hbound _ _ =>
      cases address with
      | some d =>
        rw [place_some hrules htarget] at hplace
        cases hplace
        exact hbound
      | none =>
        simp only [Machine.place, hrules, Machine.place.held] at hplace
        split at hplace <;> cases hplace
        exact Heap.isSome_boundIn_of_holder ‹_›
    | fails _ _ hwrite =>
      rw [Action.write, hplace] at hwrite
      cases hwrite
  rw [hbound] at hunbound
  cases hunbound

/-- An assignment that declares introduces its name in the active scope. -/
theorem Declares.introduces (h : Declares rules name address v m)
    (hrules : rules.addressing = .distance) {s : ScopeId} {x : Text}
    (hx : (Task.write name address v).Introduces rules m s x) : s = m.active ∧ x = name.lexeme := by
  obtain ⟨hplace, rfl, -⟩ := hx
  rw [h.innermost, place_some hrules rfl] at hplace
  cases hplace
  exact ⟨rfl, rfl⟩

/-- **A name is declared in a scope while a program runs**: it is introduced
there, and not by an assignment. -/
def DeclaredDuring (rules : Rules) (bound : Nat) (p : Program Address) (m : Machine)
    (s : ScopeId) (x : Text) : Prop :=
  ∃ t m', During rules bound p m t m' ∧ t.Introduces rules m' s x ∧
    ∀ name address v, t ≠ .write name address v

/-- **Whatever is introduced is declared**, also what an assignment binds
first. -/
theorem IntroducedDuring.declared (hrules : rules.addressing = .distance)
    (hready : Ready strict L m) (hfits : BodyFits strict [] p) {s : ScopeId} {x : Text}
    (h : IntroducedDuring rules bound p m s x) : DeclaredDuring rules bound p m s x := by
  obtain ⟨t, m', hduring, hx⟩ := h
  by_cases hwrite : ∃ name address v, t = .write name address v
  case neg =>
    exact ⟨t, m', hduring, hx, fun name address v ht => hwrite ⟨name, address, v, ht⟩⟩
  case pos =>
    obtain ⟨name, address, v, rfl⟩ := hwrite
    obtain hover | ⟨hdeclares, hinitial⟩ := hduring.overwrites_or_declares hrules hready hfits
    · exact absurd hx (hover.not_introduces hrules)
    · -- the declaration of the variable is being executed in the same scope
      obtain ⟨rfl, rfl⟩ := hdeclares.introduces hrules hx
      obtain ⟨n, declared, initial, m₁, hdeclaration, hname, hactive, -⟩ := hinitial
      refine ⟨_, m₁, hdeclaration, ⟨hactive.symm, declared, rfl, hname⟩, fun _ _ _ h => ?_⟩
      cases h

end Eval

namespace Session

open Eval

/-- **Assignments overwrite, and new names come from declarations.** In a
session that has any natives and has run any units, take a unit that
compiles, and any bound on its recursion. Every assignment in its execution
gives a new value to a name that its target binds, or fails in the globals
and changes nothing, and either way every scope binds the same names after it
as before; with one exception: an assignment that is reached from the initial
value of a variable of its own name, in the scope that the variable is
declared in, binds the variable there. And whatever name a scope binds at any
moment or at the end, and did not bind before the unit, is declared in that
scope while the unit runs. -/
theorem assignments_overwrite {natives : List Native} {s : Session} (hs : Reachable natives s)
    {src : Text} (hsrc : Source.Compiles src) (bound : Nat) :
    let p := Source.compiled src
    (∀ name address v m, During s.rules bound p s.fresh (.write name address v) m →
      Overwrites s.rules name address v m ∨ Declares s.rules name address v m ∧
        InInitial s.rules (During s.rules bound p s.fresh) name.lexeme
          (.write name address v) m) ∧
    ∀ m, (∃ t, During s.rules bound p s.fresh t m) ∨
        m = (interpret s.rules bound p s.fresh).machine →
      ∀ scope x, (m.heap.boundIn scope x).isSome = true →
        (s.machine.heap.boundIn scope x).isSome = true ∨
          DeclaredDuring s.rules bound p s.fresh scope x := by
  intro p
  obtain ⟨L, hready⟩ := hs.ready
  have hfits : BodyFits False [] p := hsrc.fits False.elim
  have hfresh : Ready False L s.fresh := ⟨hready.sound, hready.active⟩
  refine ⟨fun name address v m hduring => hduring.overwrites_or_declares rfl hfresh hfits,
    fun m hm scope x hx => ?_⟩
  have hchanges : s.fresh.heap.Changes (IntroducedDuring s.rules bound p s.fresh) m.heap := by
    rcases hm with ⟨t, hduring⟩ | rfl
    · exact hduring.changes.1
    · exact interpret_changes s.rules bound p s.fresh
  exact (hchanges.bound hx).imp_right fun h => h.declared rfl hfresh hfits

/-- A block that declares a variable and then assigns to it: the moment of the
assignment. -/
theorem assignments_overwrite_block :
    let s := Session.start 0 false false ⟨0, 0⟩
    let src := Text.ofString "\x7bvar a;a=true;\x7d"
    let name : Token := ⟨.identifier, Text.ofString "a", .nil, 1⟩
    ∃ m, During s.rules 6 (Source.compiled src) s.fresh (.write name (some 0) (.bool true)) m ∧
      Overwrites s.rules name (some 0) (.bool true) m := by
  intro s src name
  have hcompiles : Source.Compiles src := ⟨by decide, by decide, by decide⟩
  have hreach : During s.rules 6 (Source.compiled src) s.fresh
      (.write name (some 0) (.bool true)) _ :=
    .first (.call .block (.call (.restStmts rfl)
      (.call .firstStmt (.call .expr (.call (.assign rfl) .here)))))
  refine ⟨_, hreach, ?_⟩
  have hover :=
    (assignments_overwrite (s := s) (.start 0 false ⟨0, 0⟩) hcompiles 6).1 _ _ _ _ hreach
  refine hover.resolve_right fun h => ?_
  -- the variable is bound by then
  have hunbound := h.1.unbound
  cases hunbound

/-- **An assignment to a variable in its own initial value declares it.** No
scope holds `x` when `x = 1` is executed; the assignment does not fail but
binds it in the block, which prints its value. -/
theorem assignment_declares_itself :
    let s := Session.start 0 false false ⟨0, 0⟩
    let src := Text.ofString "\x7b var x = x = 1; print x; \x7d"
    let name : Token := ⟨.identifier, Text.ofString "x", .nil, 1⟩
    (Source.Compiles src ∧ ∃ v m m',
      During s.rules 7 (Source.compiled src) s.fresh (.write name (some 0) v) m ∧
      m.heap.holder m.active name.lexeme = none ∧
      Action.write s.rules name (some 0) v m = .done () m' ∧
      m'.heap.holder m.active name.lexeme = some m.active) ∧
    (s.run src).2.status = .ok ∧ (s.run src).2.output = Text.ofString "1\n" := by
  intro s src name
  have hcompiles : Source.Compiles src := ⟨by decide, by decide, by decide⟩
  have hreach : During s.rules 7 (Source.compiled src) s.fresh (.write name (some 0) _) _ :=
    .first (.call .block (.call .firstStmt (.call .varDecl
      (.call .someExpr (.call (.assign rfl) .here)))))
  refine ⟨⟨hcompiles, _, _, _, hreach, ?_, rfl, ?_⟩, ?_⟩
  · rfl
  · rfl
  · decide +kernel

end Session

end TanLang
