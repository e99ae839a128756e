import TanLang.Proofs.Evaluation.Course
import TanLang.Proofs.Evaluation.Preservation
/-!
# Evaluation — every task that is reached fits where it is reached

A task fits a machine if its code fits a context that stands at the active
scope. What a task calls fits the machine it is called in, because what was
run before it kept the heap sound; so everything a run reaches fits.
-/

namespace TanLang

open Scoping

namespace Eval

/-- **A task fits a context** that stands where it is run, if its code has
one. -/
def Task.FitsIn (strict : Prop) (L : Ledger) (m : Machine) (Γ : Context) : Task → Prop
  | .evaluate e => Stands L m.heap Γ m.active ∧ ExprFits strict Γ e
  | .evaluateAll es => Stands L m.heap Γ m.active ∧ ExprsFit strict Γ es
  | .apply _ _ _ => True
  | .invoke _ callee args => m.heap.arity? callee = some args.length
  | .runFunction f args =>
    FunctionFits strict L m.heap f ∧ f.decl.params.length = args.length
  | .leaveCall f _ => FunctionFits strict L m.heap f
  | .execute s => Stands L m.heap Γ m.active ∧ StmtFits strict Γ s
  | .evaluateOption e => Stands L m.heap Γ m.active ∧ ExprOptionFits strict Γ e
  | .executeOption s => Stands L m.heap Γ m.active ∧ StmtOptionFits strict Γ s
  | .executeAll ss => Stands L m.heap Γ m.active ∧ BodyFits strict Γ ss
  | .repeatWhile cond body =>
    Stands L m.heap Γ m.active ∧ ExprFits strict Γ cond ∧ StmtOptionFits strict Γ body
  | .repeatFor _ _ _ => False
  | .evaluateCondition _ => False
  | .read name address => Stands L m.heap Γ m.active ∧ Reads strict Γ name.lexeme address
  | .write name address _ => Stands L m.heap Γ m.active ∧ Writes strict Γ name.lexeme address

/-- **A task fits the machine it is run in**, in some context. -/
def Task.Fits (strict : Prop) (L : Ledger) (m : Machine) (t : Task) : Prop :=
  ∃ Γ, t.FitsIn strict L m Γ

/-- The task is to declare a name as a variable. -/
def Task.DeclaresVar (t : Task) (x : Text) : Prop :=
  ∃ name initial, t = .execute (.varDecl name initial) ∧ name.lexeme = x

/-- A task fits a machine whose heap is sound. -/
def Task.Runs (strict : Prop) (t : Task) (m : Machine) : Prop :=
  ∃ L, Sound strict L m.heap ∧ t.Fits strict L m

section

variable {α : Type} {strict : Prop} {L : Ledger} {m m' : Machine}

/-- What an action kept, once it has answered. -/
theorem Keeps.of_eq_done {x : Action α} {Then : Ledger → α → Machine → Prop} {a : α}
    (hx : Keeps strict L x m Then) (hdone : x m = .done a m') :
    ∃ L', Kept strict L m L' m' ∧ Then L' a m' := by
  unfold Keeps at hx
  simpa only [hdone] using hx

variable {rules : Rules} {n : Nat} {t t' : Task}

/-- **What a task that fits a context calls, fits one, too.** A name is in the
making there only if it was in the making before, or the task declares it as a
variable; and then the same scope is active. -/
theorem Calls.fitsIn (hrules : rules.addressing = .distance) (hcall : Calls rules n t m t' m')
    {Γ : Context} (hsound : Sound strict L m.heap) (hfits : t.FitsIn strict L m Γ) :
    ∃ L' Γ', Sound strict L' m'.heap ∧ t'.FitsIn strict L' m' Γ' ∧
      ∀ x, Γ'.Makes x → m'.active = m.active ∧ (Γ.Makes x ∨ t.DeclaresVar x) := by
  have ih : Preserves strict rules n := preserves hrules n
  -- what is called in the same context, after what has been run before
  have hstay : ∀ {L' : Ledger}, Kept strict L m L' m' → t'.FitsIn strict L' m' Γ →
      ∃ L' Γ', Sound strict L' m'.heap ∧ t'.FitsIn strict L' m' Γ' ∧
        ∀ x, Γ'.Makes x → m'.active = m.active ∧ (Γ.Makes x ∨ t.DeclaresVar x) :=
    fun hkept hfits' => ⟨_, Γ, hkept.sound, hfits', fun x hx => ⟨hkept.active, .inl hx⟩⟩
  -- what is called and has no context of its own
  have hbare : ∀ {L' : Ledger}, Sound strict L' m'.heap → t'.FitsIn strict L' m' [] →
      ∃ L' Γ', Sound strict L' m'.heap ∧ t'.FitsIn strict L' m' Γ' ∧
        ∀ x, Γ'.Makes x → m'.active = m.active ∧ (Γ.Makes x ∨ t.DeclaresVar x) :=
    fun hsound' hfits' => ⟨_, [], hsound', hfits', fun x hx => absurd hx (Context.not_makes_nil x)⟩
  have hevaluated : ∀ {e : Expr Address} {v : Value} {k : Machine}, Stands L m.heap Γ m.active →
      ExprFits strict Γ e → evaluate rules n e m = .done v k →
      ∃ L', Kept strict L m L' k ∧ Stands L' k.heap Γ k.active := by
    intro e v k hstands he hdone
    obtain ⟨L', hkept, -⟩ := (ih.evaluate hsound hstands he).of_eq_done hdone
    exact ⟨L', hkept, hkept.stands hstands⟩
  cases hcall with
  | grouping | unary | object | expr | print | loop | ret | var | receiver | someExpr =>
    exact hstay (.refl hsound) hfits
  | left | cond | logicalLeft | callee | target | firstExpr | branch | whileCond | firstStmt =>
    exact hstay (.refl hsound) ⟨hfits.1, hfits.2.1⟩
  | assigned | someStmt => exact hstay (.refl hsound) ⟨hfits.1, hfits.2.2⟩
  | superclass => exact hstay (.refl hsound) ⟨hfits.1, hfits.2.2.1⟩
  | right hdone | logicalRight hdone | args hdone | restExprs hdone | whileBody hdone =>
    obtain ⟨L', hkept, hstands⟩ := hevaluated hfits.1 hfits.2.1 hdone
    exact hstay hkept ⟨hstands, hfits.2.2⟩
  | assign hdone =>
    obtain ⟨L', hkept, hstands⟩ := hevaluated hfits.1 hfits.2.2 hdone
    exact hstay hkept ⟨hstands, hfits.2.1⟩
  | yes hdone =>
    obtain ⟨L', hkept, hstands⟩ := hevaluated hfits.1 hfits.2.1 hdone
    exact hstay hkept ⟨hstands, hfits.2.2.1⟩
  | no hdone | branchNo hdone =>
    obtain ⟨L', hkept, hstands⟩ := hevaluated hfits.1 hfits.2.1 hdone
    exact hstay hkept ⟨hstands, hfits.2.2.2⟩
  | branchYes hdone =>
    obtain ⟨L', hkept, hstands⟩ := hevaluated hfits.1 hfits.2.1 hdone
    exact hstay hkept ⟨hstands, hfits.2.2.1.2⟩
  | field hdone hdone' =>
    obtain ⟨L₁, hkept₁, hstands₁⟩ := hevaluated hfits.1 hfits.2.1 hdone
    obtain ⟨L₂, hkept₂, -⟩ := (expectInstance_keeps hkept₁.sound).of_eq_done hdone'
    exact hstay (hkept₁.trans hkept₂) ⟨hkept₂.stands hstands₁, hfits.2.2⟩
  | call hdone hdone' =>
    obtain ⟨L₁, hkept₁, hstands₁⟩ := hevaluated hfits.1 hfits.2.1 hdone
    obtain ⟨L₂, hkept₂, -⟩ :=
      (ih.evaluateAll hkept₁.sound hstands₁ hfits.2.2).of_eq_done hdone'
    exact hbare hkept₂.sound trivial
  | apply hdone hdone' =>
    obtain ⟨L₁, hkept₁, harity⟩ := (checkCall_keeps hsound).of_eq_done hdone
    obtain ⟨L₂, hkept₂, hheap⟩ := (checkDepth_keeps hkept₁.sound).of_eq_done hdone'
    exact hbare hkept₂.sound ((congrArg (fun h : Heap => h.arity? _) hheap).trans harity)
  | function hdone =>
    obtain ⟨L', hkept, hfn⟩ := (fetchFunction_keeps hsound hfits).of_eq_done hdone
    exact hbare hkept.sound hfn
  | init hdone =>
    obtain ⟨L', hkept, hinit⟩ := (instantiate_keeps hsound hfits).of_eq_done hdone
    exact hbare hkept.sound (hinit _ rfl)
  | body hdone =>
    -- the scope of a call is new, and its parameters can all be read
    obtain ⟨L', hkept, Γ', hstands, hbody, hclean⟩ :=
      (enterCall_keeps hsound hfits.1 (Nat.le_of_eq hfits.2)).of_eq_done hdone
    exact ⟨L', Γ', hkept.sound, ⟨hstands, hbody⟩, fun x hx => absurd hx (hclean x)⟩
  | leave hdone hdone' =>
    obtain ⟨L₁, hkept₁, Γ', hstands, hbody, -⟩ :=
      (enterCall_keeps hsound hfits.1 (Nat.le_of_eq hfits.2)).of_eq_done hdone
    obtain ⟨L₂, hkept₂, -⟩ :=
      (ih.executeAll_inScope hkept₁.sound hstands hbody).of_eq_done hdone'
    -- the heap has only grown, so the closure still binds `this`
    exact hbare hkept₂.sound ((hfits.1.grow hkept₁.grows).grow hkept₂.grows)
  | varDecl =>
    -- the initializer fits a context in which the name is not readable yet
    refine ⟨L, _, hsound, ⟨hfits.1.mark_false _, hfits.2.2⟩, fun x hx => ⟨rfl, ?_⟩⟩
    refine hx.of_mark.imp_right ?_
    rintro ⟨rfl, -⟩
    exact ⟨_, _, rfl, rfl⟩
  | block =>
    obtain ⟨hstands, allowed, hbody⟩ := hfits
    have hnew := leads_newScope hsound hstands allowed
    exact ⟨_, _, hnew.sound, ⟨hnew.stands, hbody⟩,
      fun x hx => absurd hx (Context.not_makes_empty x)⟩
  | restStmts hdone =>
    obtain ⟨L', hkept, hafter⟩ := (ih.execute hsound hfits.1 hfits.2.1).of_eq_done hdone
    exact ⟨L', _, hkept.sound, ⟨hafter rfl, hfits.2.2⟩,
      fun x hx => ⟨hkept.active, .inl hx.of_after⟩⟩
  | whileAgain hdone _ hdone' =>
    obtain ⟨L₁, hkept₁, hstands₁⟩ := hevaluated hfits.1 hfits.2.1 hdone
    obtain ⟨L₂, hkept₂, -⟩ :=
      (ih.executeOption hkept₁.sound hstands₁ hfits.2.2).of_eq_done hdone'
    exact hstay (hkept₁.trans hkept₂) ⟨hkept₂.stands hstands₁, hfits.2⟩
  -- no compiled program has a `for` loop left
  | forLoop | forInitial | forAfter => exact hfits.2.elim
  | forCond | forBody | forStep | forAgain | someCondition => exact hfits.elim

/-- **What a task that fits calls, fits.** -/
theorem Calls.runs (hrules : rules.addressing = .distance) (hcall : Calls rules n t m t' m')
    (hruns : t.Runs strict m) : t'.Runs strict m' := by
  obtain ⟨L, hsound, Γ, hfits⟩ := hruns
  obtain ⟨L', Γ', hsound', hfits', -⟩ := hcall.fitsIn hrules hsound hfits
  exact ⟨L', hsound', Γ', hfits'⟩

/-- **Whatever a task that fits reaches, fits.** -/
theorem Reaches.runs (hrules : rules.addressing = .distance) (hreach : Reaches rules n t m t' m')
    (hruns : t.Runs strict m) : t'.Runs strict m' := by
  induction hreach with
  | here => exact hruns
  | call hcall _ ih => exact ih (hcall.runs hrules hruns)

end

end Eval

end TanLang
