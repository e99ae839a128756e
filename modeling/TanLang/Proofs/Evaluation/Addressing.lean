import TanLang.Proofs.Evaluation.Agreement
/-!
# Evaluation — by distance or along the chain

Rules that differ only in how they find names can be told apart only at a
use of a name. So a run comes to the same under both if they find the same
place **at every use that the run reaches**, and it is enough to know what
the one run reaches.

Following the enclosing scopes finds the innermost scope that binds a name
at that moment. A use that is at home goes to the innermost scope that
declares it so far, and no scope around it is still to declare it; since a
scope binds only what its text declares, both are the same scope.
-/

namespace TanLang

open Scoping

namespace Eval

variable {α β : Type} {m : Machine} {rules rules' : Rules} {n : Nat} {t : Task}

/-! ## Rules that find the same places -/

/-- A task comes to the same under both rules. -/
def Task.SameResult (rules rules' : Rules) (n : Nat) (m : Machine) : Task → Prop
  | .evaluate e => Eval.evaluate rules' n e m = Eval.evaluate rules n e m
  | .evaluateAll es => Eval.evaluateAll rules' n es m = Eval.evaluateAll rules n es m
  | .apply paren callee args =>
    Eval.apply rules' n paren callee args m = Eval.apply rules n paren callee args m
  | .invoke paren callee args =>
    Eval.invoke rules' n paren callee args m = Eval.invoke rules n paren callee args m
  | .runFunction f args => Eval.runFunction rules' n f args m = Eval.runFunction rules n f args m
  | .leaveCall _ _ => True
  | .execute s => Eval.execute rules' n s m = Eval.execute rules n s m
  | .evaluateOption e => Eval.evaluateOption rules' n e m = Eval.evaluateOption rules n e m
  | .executeOption s => Eval.executeOption rules' n s m = Eval.executeOption rules n s m
  | .executeAll ss => Eval.executeAll rules' n ss m = Eval.executeAll rules n ss m
  | .repeatWhile cond body =>
    Eval.repeatWhile rules' n cond body m = Eval.repeatWhile rules n cond body m
  | .repeatFor cond step body =>
    Eval.repeatFor rules' n cond step body m = Eval.repeatFor rules n cond step body m
  | .evaluateCondition e =>
    Eval.evaluateCondition rules' n e m = Eval.evaluateCondition rules n e m
  | .read name address => Action.read rules' name address m = Action.read rules name address m
  | .write name address v =>
    Action.write rules' name address v m = Action.write rules name address v m

/-- Two rules find a name in the same place where a task uses it. -/
def Task.SamePlace (rules rules' : Rules) (m : Machine) : Task → Prop
  | .read name address | .write name address _ =>
    m.place rules' name.lexeme address = m.place rules name.lexeme address
  | _ => True

/-- **One action after another comes to the same** if the first does and the
second does in the machine that the first leaves. -/
theorem bind_congr_at {x x' : Action α} {f f' : α → Action β} (hx : x' m = x m)
    (hf : ∀ a m', x m = .done a m' → f' a m' = f a m') : (x' >>= f') m = (x >>= f) m := by
  change Action.andThen x' f' m = Action.andThen x f m
  unfold Action.andThen
  rw [hx]
  cases hxm : x m with
  | done a m' => exact hf a m' hxm
  | raised error m' => rfl
  | crashed m' => rfl
  | exhausted m' => rfl

theorem inScope_congr_at {x x' : Action α} {s : ScopeId}
    (hx : x' { m with active := s } = x { m with active := s }) :
    Action.inScope s x' m = Action.inScope s x m := by
  simp only [Action.inScope, hx]

theorem inNewScope_congr_at {x x' : Action α} (hx : x' (entered m) = x (entered m)) :
    Action.inNewScope x' m = Action.inNewScope x m :=
  inScope_congr_at (m := { m with heap := (m.heap.newScope (some m.active)).1 }) hx

theorem counted_congr_at {x x' : Action α}
    (hx : x' { m with depth := m.depth + 1 } = x { m with depth := m.depth + 1 }) :
    Action.counted x' m = Action.counted x m := by
  simp only [Action.counted, hx]

theorem read_congr_at {name : Token} {address : Address}
    (hplace : m.place rules' name.lexeme address = m.place rules name.lexeme address) :
    Action.read rules' name address m = Action.read rules name address m := by
  simp only [Action.read, hplace]

theorem write_congr_at {name : Token} {address : Address} {v : Value}
    (hplace : m.place rules' name.lexeme address = m.place rules name.lexeme address) :
    Action.write rules' name address v m = Action.write rules name address v m := by
  simp only [Action.write, hplace]

/-- An expression comes to the same if all that it calls does. -/
theorem evaluate_sameResult {e : Expr Address}
    (hcalls : ∀ t' m', Calls rules n (.evaluate e) m t' m' → t'.SameResult rules rules' n m') :
    Eval.evaluate rules' (n + 1) e m = Eval.evaluate rules (n + 1) e m := by
  -- every part comes to the same, and so does what is made of the parts
  cases e <;> simp only [evaluate]
  case grouping paren inner => exact hcalls _ _ .grouping
  case unary op operand => exact bind_congr_at (hcalls _ _ .unary) fun _ _ _ => rfl
  case binary left op right =>
    refine bind_congr_at (hcalls _ _ .left) fun l m₁ hl => ?_
    exact bind_congr_at (hcalls _ _ (.right hl)) fun _ _ _ => rfl
  case ternary cond mark yes no =>
    refine bind_congr_at (hcalls _ _ .cond) fun c m₁ hc => ?_
    split
    · exact hcalls _ _ (.yes hc ‹_›)
    · exact hcalls _ _ (.no hc (Bool.eq_false_iff.2 ‹_›))
  case logical left op right =>
    refine bind_congr_at (hcalls _ _ .logicalLeft) fun l m₁ hl => ?_
    split
    · rfl
    · exact hcalls _ _ (.logicalRight hl (Bool.eq_false_iff.2 ‹_›))
  case var name address => exact hcalls _ _ .var
  case receiver keyword address => exact hcalls _ _ .receiver
  case assign name address value =>
    refine bind_congr_at (hcalls _ _ .assigned) fun v m₁ hv => ?_
    exact bind_congr_at (hcalls _ _ (.assign hv)) fun _ _ _ => rfl
  case call callee paren args =>
    refine bind_congr_at (hcalls _ _ .callee) fun f m₁ hf => ?_
    refine bind_congr_at (hcalls _ _ (.args hf)) fun vs m₂ hvs => ?_
    exact hcalls _ _ (.call hf hvs)
  case get object name => exact bind_congr_at (hcalls _ _ .object) fun _ _ _ => rfl
  case set object name value =>
    refine bind_congr_at (hcalls _ _ .target) fun o m₁ ho => ?_
    refine bind_congr_at rfl fun i m₂ hi => ?_
    exact bind_congr_at (hcalls _ _ (.field ho hi)) fun _ _ _ => rfl

/-- A statement comes to the same if all that it calls does. -/
theorem execute_sameResult {s : Stmt Address}
    (hcalls : ∀ t' m', Calls rules n (.execute s) m t' m' → t'.SameResult rules rules' n m') :
    Eval.execute rules' (n + 1) s m = Eval.execute rules (n + 1) s m := by
  cases s <;> simp only [execute]
  case expr e => exact bind_congr_at (hcalls _ _ .expr) fun _ _ _ => rfl
  case print keyword value => exact bind_congr_at (hcalls _ _ .print) fun _ _ _ => rfl
  case varDecl name initial => exact bind_congr_at (hcalls _ _ .varDecl) fun _ _ _ => rfl
  case block brace body => exact inNewScope_congr_at (hcalls _ _ .block)
  case branch keyword cond yes no =>
    refine bind_congr_at (hcalls _ _ .branch) fun c m₁ hc => ?_
    split
    · exact hcalls _ _ (.branchYes hc ‹_›)
    · exact hcalls _ _ (.branchNo hc (Bool.eq_false_iff.2 ‹_›))
  case loop keyword cond body => exact hcalls _ _ .loop
  case forLoop keyword initial cond step body =>
    cases initial with
    | none => exact hcalls _ _ .forLoop
    | some initial =>
      refine inNewScope_congr_at (bind_congr_at (hcalls _ _ .forInitial) fun c m₁ hc => ?_)
      exact hcalls _ _ (.forAfter hc)
  case ret keyword value => exact bind_congr_at (hcalls _ _ .ret) fun _ _ _ => rfl
  case classDecl name superclass methods =>
    refine bind_congr_at ?_ fun _ _ _ => rfl
    cases superclass with
    | none => rfl
    | some sup => exact bind_congr_at (hcalls _ _ .superclass) fun _ _ _ => rfl

/-- **A task comes to the same if all that it calls does.** -/
theorem Task.sameResult_succ (hdepth : rules'.maxDepth = rules.maxDepth)
    (hclock : rules'.clock = rules.clock) (hplace : t.SamePlace rules rules' m)
    (hcalls : ∀ t' m', Calls rules n t m t' m' → t'.SameResult rules rules' n m') :
    t.SameResult rules rules' (n + 1) m := by
  cases t <;> simp only [SameResult]
  case evaluate e => exact evaluate_sameResult hcalls
  case execute s => exact execute_sameResult hcalls
  case evaluateAll es =>
    cases es <;> simp only [Eval.evaluateAll]
    case cons e rest =>
      refine bind_congr_at (hcalls _ _ .firstExpr) fun v m₁ hv => ?_
      exact bind_congr_at (hcalls _ _ (.restExprs hv)) fun _ _ _ => rfl
  case apply paren callee args =>
    simp only [Eval.apply]
    refine bind_congr_at rfl fun _ m₁ h₁ => ?_
    have hcheck : checkDepth rules' paren = checkDepth rules paren := by
      unfold checkDepth
      rw [hdepth]
    rw [hcheck]
    refine bind_congr_at rfl fun _ m₂ h₂ => ?_
    exact counted_congr_at (hcalls _ _ (.apply h₁ h₂))
  case invoke paren callee args =>
    cases callee <;> simp only [Eval.invoke]
    case function f =>
      exact bind_congr_at rfl fun fn m₁ h₁ => hcalls _ _ (.function h₁)
    case native f =>
      unfold callNative Machine.world
      rw [hclock]
    case classRef c =>
      refine bind_congr_at rfl fun made m₁ h₁ => ?_
      obtain ⟨i, init⟩ := made
      cases init with
      | none => rfl
      | some init => exact bind_congr_at (hcalls _ _ (.init h₁)) fun _ _ _ => rfl
  case runFunction f args =>
    simp only [Eval.runFunction]
    refine bind_congr_at rfl fun s m₁ h₁ => ?_
    exact bind_congr_at (inScope_congr_at (hcalls _ _ (.body h₁))) fun _ _ _ => rfl
  case evaluateOption e =>
    cases e with
    | none => rfl
    | some e => exact hcalls _ _ .someExpr
  case executeOption s =>
    cases s with
    | none => rfl
    | some s => exact hcalls _ _ .someStmt
  case executeAll ss =>
    cases ss <;> simp only [Eval.executeAll]
    case cons s rest =>
      refine bind_congr_at (hcalls _ _ .firstStmt) fun c m₁ hc => ?_
      cases c with
      | returning v => rfl
      | normal => exact hcalls _ _ (.restStmts hc)
  case repeatWhile cond body =>
    simp only [Eval.repeatWhile]
    refine bind_congr_at (hcalls _ _ .whileCond) fun v m₁ hv => ?_
    split
    · refine bind_congr_at (hcalls _ _ (.whileBody hv ‹_›)) fun c m₂ hc => ?_
      cases c with
      | returning v => rfl
      | normal => exact hcalls _ _ (.whileAgain hv ‹_› hc)
    · rfl
  case repeatFor cond step body =>
    simp only [Eval.repeatFor]
    refine bind_congr_at (hcalls _ _ .forCond) fun v m₁ hv => ?_
    split
    · refine bind_congr_at (hcalls _ _ (.forBody hv ‹_›)) fun c m₂ hc => ?_
      cases c with
      | returning v => rfl
      | normal =>
        refine bind_congr_at (hcalls _ _ (.forStep hv ‹_› hc)) fun w m₃ hw => ?_
        exact hcalls _ _ (.forAgain hv ‹_› hc hw)
    · rfl
  case evaluateCondition e =>
    cases e with
    | none => rfl
    | some e => exact hcalls _ _ .someCondition
  case read name address => exact read_congr_at hplace
  case write name address v => exact write_congr_at hplace

/-- **A run comes to the same under both rules** if they find the same place
at every use that the one run reaches. -/
theorem Task.sameResult (hdepth : rules'.maxDepth = rules.maxDepth)
    (hclock : rules'.clock = rules.clock)
    (hplaces : ∀ t' m', Reaches rules n t m t' m' → t'.SamePlace rules rules' m') :
    t.SameResult rules rules' n m := by
  induction n generalizing t m with
  | zero =>
    -- nothing is evaluated with the bound 0, but a name can still be used
    have hplace := hplaces t m .here
    cases t
    case read name address => exact read_congr_at hplace
    case write name address v => exact write_congr_at hplace
    case leaveCall f c => trivial
    all_goals rfl
  | succ n ih =>
    refine sameResult_succ hdepth hclock (hplaces t m .here) fun t' m' hcall => ih ?_
    exact fun t'' m'' hreach => hplaces t'' m'' (.call hcall hreach)

/-! ## The chain and the distance -/

section

variable {strict : Prop} {L : Ledger} {h : Heap} {Γ : Context} {s : ScopeId} {x : Text}

/-- The globals are the last scope on every way out. -/
theorem Sound.holderWithin_globals (hsound : Sound strict L h) (steps : Nat) :
    h.holderWithin x (steps + 1) Machine.globals = h.holder Machine.globals x := by
  obtain ⟨scope, hscope, houter⟩ := hsound.globals
  have hsize : 0 < h.scopes.size := (Array.getElem?_eq_some_iff.1 hscope).1
  obtain ⟨k, hk⟩ : ∃ k, h.scopes.size = k + 1 := ⟨h.scopes.size - 1, by omega⟩
  simp only [Heap.holder, hk, Heap.holderWithin, hscope, houter]

/-- **A scope in which a name is settled binds it just if it has declared
it.** -/
theorem contains_of_settled {E : Entry} {scope : Scope} (hsound : Sound strict L h)
    (hscope : h.scope? s = some scope) (houter : scope.outer.isSome = true)
    (hallowed : L s = E.allowed)
    (hbound : ∀ x, E.marks.find? x = some true → (scope.values.find? x).isSome = true)
    (hsettled : E.Settled x) : scope.values.contains x = E.marks.contains x := by
  unfold Table.contains
  rw [Bool.eq_iff_iff]
  constructor
  · intro hx
    -- the scope binds only what it may declare, and that much is declared here
    have hmay : E.allowed x := hallowed ▸ hsound.bound s scope x hscope houter hx
    rw [hsettled (.inl hmay)]
    rfl
  · intro hx
    exact hbound x (hsettled (.inr hx))

/-- **Where a name is settled, the chain leads where the distance leads**:
to the scope so many scopes out, and to the globals if there is none. -/
theorem Stands.holderWithin_eq (hsound : Sound strict L h) (hstands : Stands L h Γ s)
    (hsettled : Γ.Settled x) {steps : Nat} (hsteps : s.index < steps) :
    h.holderWithin x steps s =
      match distance x Γ.frames with
      | some d => h.ancestor s d
      | none => h.holder Machine.globals x := by
  -- on the way out, one scope of the context for each scope of the chain
  induction hstands generalizing steps with
  | globals =>
    obtain ⟨k, rfl⟩ : ∃ k, steps = k + 1 := ⟨steps - 1, by omega⟩
    exact hsound.holderWithin_globals k
  | @inside E Γ s outer scope hscope houter hbefore hallowed hbound hrest ih =>
    obtain ⟨k, rfl⟩ : ∃ k, steps = k + 1 := ⟨steps - 1, by omega⟩
    have hcontains := contains_of_settled hsound hscope (by rw [houter]; rfl) hallowed hbound
      (hsettled E (List.mem_cons_self ..))
    have hdistance : distance x (Context.frames (E :: Γ)) =
        if E.marks.contains x then some 0 else (distance x Γ.frames).map (· + 1) := by
      rw [Context.frames_cons, distance, List.findIdx?_cons]
      rfl
    rw [Heap.holderWithin, hscope]
    simp only [hcontains, houter, hdistance]
    split
    · rfl
    · rw [ih (fun E' hE' => hsettled E' (List.mem_cons_of_mem _ hE')) (by omega)]
      cases distance x Γ.frames with
      | none => rfl
      | some d => exact (ancestor_succ hscope houter).symm

/-- **A use that is at home takes place in the same scope** along the chain
and by its distance. -/
theorem place_eq_of_atHome {address : Address} (hhome : AtHome Γ x address)
    (hrules : rules.addressing = .distance) (hrules' : rules'.addressing = .chain)
    (hsound : Sound strict L m.heap) (hstands : Stands L m.heap Γ m.active)
    (hscope : ∀ d, address = some d → (m.heap.ancestor m.active d).isSome = true) :
    m.place rules' x address = m.place rules x address := by
  have hsize : m.active.index < m.heap.scopes.size := by
    simpa [Heap.scope?] using hstands.isSome_scope hsound
  have hholder := hstands.holderWithin_eq hsound hhome.settled hsize
  rw [← hhome.nearest] at hholder
  cases address with
  | none => simp only [Machine.place, hrules, hrules', Machine.place.held, Heap.holder, hholder]
  | some d =>
    obtain ⟨t, ht⟩ := Option.isSome_iff_exists.1 (hscope d rfl)
    simp only [Machine.place, hrules, hrules', Machine.place.held, Heap.holder, hholder, ht]

/-- **Every use that fits, in order, takes place in the same scope** by both
rules. -/
theorem Task.Runs.samePlace (hrules : rules.addressing = .distance)
    (hrules' : rules'.addressing = .chain) (hruns : t.Runs True m) :
    t.SamePlace rules rules' m := by
  obtain ⟨L, hsound, hfits⟩ := hruns
  cases t <;> try trivial
  case read name address =>
    obtain ⟨Γ, hstands, hreads⟩ := hfits
    refine place_eq_of_atHome (hreads.home trivial) hrules hrules' hsound hstands fun d hd => ?_
    obtain ⟨scope, hscope, -⟩ := hstands.bound_of_reads hreads hd
    rw [hscope]
    rfl
  case write name address v =>
    obtain ⟨Γ, hstands, hwrites⟩ := hfits
    refine place_eq_of_atHome (hwrites.home trivial) hrules hrules' hsound hstands fun d hd => ?_
    obtain ⟨scope, hscope, -⟩ := hstands.scope_of_writes hwrites hd
    rw [hscope]
    rfl

end

end Eval

end TanLang
