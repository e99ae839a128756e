import TanLang.Proofs.Grammar
import TanLang.Proofs.Scoping.Resolution
import TanLang.Proofs.WritingOut
/-!
# Scoping — `for` loops written out are resolved the same

A program and the same program with its `for` loops written out are walked
side by side. The second walk has an extra scope around the body and the
step of some loops. **Nothing is ever declared in it**, so every use comes
to the same scope in both walks, and both report the same issues in the same
order.

`Tandem` says what two steps of resolution, done in scopes that correspond,
have in common. It is closed under what steps are put together with, so the
proofs follow the text of the walk.
-/

namespace TanLang

/-! ## The trees that are walked -/

namespace Stmt

variable {α : Type}

mutual

/-- **What is chosen or repeated declares nothing**, and a `for` loop starts
with a variable or an expression. -/
def Placed : Stmt α → Prop
  | block _ body => PlacedAll body
  | branch _ _ yes no => (yes.declared = none ∧ Placed yes) ∧ PlacedOption no
  | loop _ _ body => PlacedOption body
  | forLoop _ initial _ _ body => (∀ s ∈ initial, s.opens = true) ∧ PlacedOption body
  | function decl => PlacedRoutine decl
  | classDecl _ _ methods => PlacedMethods methods
  | expr _ => True
  | print _ _ => True
  | varDecl _ _ => True
  | ret _ _ => True

/-- The same for statements in a row. -/
def PlacedAll : List (Stmt α) → Prop
  | [] => True
  | s :: rest => Placed s ∧ PlacedAll rest

/-- The same for a statement that may be missing and declares nothing. -/
def PlacedOption : Option (Stmt α) → Prop
  | none => True
  | some s => s.declared = none ∧ Placed s

/-- The same for a function. -/
def PlacedRoutine : Routine (Stmt α) → Prop
  | ⟨_, _, body⟩ => PlacedAll body

/-- The same for the methods of a class. -/
def PlacedMethods : List (Routine (Stmt α)) → Prop
  | [] => True
  | m :: rest => PlacedRoutine m ∧ PlacedMethods rest

end

theorem placed_of_opens {s : Stmt α} (h : s.opens = true) : s.Placed := by
  cases s <;> trivial

end Stmt

namespace Grammar

theorem Variable.opens {w : List Token} {s : Stmt Unit} (h : Variable w s) : s.opens = true := by
  cases h <;> rfl

theorem Effect.opens {w : List Token} {s : Stmt Unit} (h : Effect w s) : s.opens = true := by
  cases h
  rfl

theorem ForClauses.opens {w : List Token} {initial : Option (Stmt Unit)}
    {cond step : Option (Expr Unit)} (h : ForClauses w initial cond step) :
    ∀ s ∈ initial, s.opens = true := by
  cases h with
  | intro _ hinitial =>
    rintro s ⟨⟩
    cases hinitial with
    | declared h => exact h.opens
    | effect h => exact h.opens

mutual

/-- **The grammar puts declarations only where there is a scope for them.** -/
theorem Statement.placed {w : List Token} {s : Stmt Unit} :
    Statement w s → s.declared = none ∧ s.Placed
  | .effect h => by
    cases h
    exact ⟨rfl, trivial⟩
  | .print _ _ _ => ⟨rfl, trivial⟩
  | .ret _ _ _ => ⟨rfl, trivial⟩
  | .block _ h => ⟨rfl, h.placed⟩
  | .branch _ _ _ _ hyes => ⟨rfl, hyes.placed, trivial⟩
  | .branchElse _ _ _ _ hyes _ hno => ⟨rfl, hyes.placed, hno.placed⟩
  | .loop _ _ _ _ hbody => ⟨rfl, hbody.placed⟩
  | .forLoop _ hclauses hbody => ⟨rfl, hclauses.opens, hbody.placed⟩
  | .forEmpty _ hclauses _ => ⟨rfl, hclauses.opens, trivial⟩

/-- The same for a declaration, except for what it declares. -/
theorem Declaration.placed {w : List Token} {s : Stmt Unit} : Declaration w s → s.Placed
  | .statement h => h.placed.2
  | .varDecl h => Stmt.placed_of_opens h.opens
  | .function _ h => h.placed
  | .classDecl _ _ _ _ hmethods _ => hmethods.placed

/-- The same for declarations in a row. -/
theorem Declarations.placed {w : List Token} {ss : List (Stmt Unit)} :
    Declarations w ss → Stmt.PlacedAll ss
  | .nil => trivial
  | .cons h hrest => ⟨h.placed, hrest.placed⟩

/-- The same for a block after its opening brace. -/
theorem Body.placed {w : List Token} {ss : List (Stmt Unit)} : Body w ss → Stmt.PlacedAll ss
  | .intro h _ => h.placed

/-- The same for a function from its name on. -/
theorem Method.placed {w : List Token} {decl : Routine (Stmt Unit)} :
    Method w decl → Stmt.PlacedRoutine decl
  | .intro _ _ _ _ _ hbody => by
    rw [Stmt.PlacedRoutine]
    exact hbody.placed

/-- The same for methods in a row. -/
theorem Methods.placed {w : List Token} {ms : List (Routine (Stmt Unit))} :
    Methods w ms → Stmt.PlacedMethods ms
  | .nil => trivial
  | .cons h hrest => ⟨h.placed, hrest.placed⟩

end

end Grammar

namespace Scoping

/-! ## The scopes of both walks -/

/-- **The scopes of a walk, and those of the walk that has extra ones.** -/
inductive Padded : Layers → List Frame → List Frame → Prop where
  | nil : Padded [] [] []
  | own {layers : Layers} {frames frames' : List Frame} (frame : Frame)
      (h : Padded layers frames frames') :
      Padded (false :: layers) (frame :: frames) (frame :: frames')
  | extra {layers : Layers} {frames frames' : List Frame} (h : Padded layers frames frames') :
      Padded (true :: layers) frames (.empty :: frames')

/-- Every name declared so far can be read. -/
def Readable (frames : List Frame) : Prop :=
  ∀ frame ∈ frames, ∀ x, frame.find? x ≠ some false

/-- **How the scopes correspond between statements.** -/
structure Aligned (layers : Layers) (frames frames' : List Frame) : Prop where
  padded : Padded layers frames frames'
  readable : Readable frames

/-- How they correspond while the first value of a variable is resolved. -/
structure Pending (layers : Layers) (x : Text) (frames frames' : List Frame) : Prop where
  padded : Padded layers frames frames'
  readable : Readable (mark x true frames)

/-- **All that an expression can tell of the scopes.** -/
structure Seen (layers : Layers) (frames frames' : List Frame) : Prop where
  distance (x : Text) : Option.Rel (layers.Apart) (distance x frames) (distance x frames')
  innermost (x : Text) : innermost x frames' = some false ↔ innermost x frames = some false

/-- Scopes that correspond in this way look the same to an expression. -/
def Shows (P : List Frame → List Frame → Prop) (layers : Layers) : Prop :=
  ∀ frames frames', P frames frames' → Seen layers frames frames'

section

variable {layers : Layers} {frames frames' : List Frame} {frame : Frame} {x : Text}

theorem distance_cons (x : Text) (frame : Frame) (frames : List Frame) :
    distance x (frame :: frames) =
      if frame.contains x then some 0 else (distance x frames).map (· + 1) :=
  List.findIdx?_cons

theorem Padded.distance (h : Padded layers frames frames') (x : Text) :
    Option.Rel layers.Apart (distance x frames) (distance x frames') := by
  induction h with
  | nil => exact .none
  | @own _ frames frames' frame h ih =>
    rw [distance_cons, distance_cons]
    split
    · exact .some .here
    · generalize Scoping.distance x frames = d, Scoping.distance x frames' = d' at ih
      cases ih with
      | none => exact .none
      | some hapart => exact .some (.next hapart)
  | @extra _ frames frames' h ih =>
    have hskip : Scoping.distance x (.empty :: frames') =
        (Scoping.distance x frames').map (· + 1) := distance_cons ..
    rw [hskip]
    generalize Scoping.distance x frames = d, Scoping.distance x frames' = d' at ih
    cases ih with
    | none => exact .none
    | some hapart => exact .some (.skip hapart)

/-- What can be declared is declared in the same scope. -/
theorem Padded.innermost_of_own (h : Padded layers frames frames') (hown : layers.Own) (x : Text) :
    innermost x frames' = innermost x frames := by
  cases h with
  | nil => rfl
  | own => rfl
  | extra => cases hown

theorem Padded.mark (h : Padded layers frames frames') (hown : layers.Own) (x : Text) (b : Bool) :
    Padded layers (mark x b frames) (mark x b frames') := by
  cases h with
  | nil => exact .nil
  | own frame h => exact .own _ h
  | extra => cases hown

theorem Readable.nil : Readable [] := nofun

theorem Readable.cons (hframe : ∀ x, frame.find? x ≠ some false) (h : Readable frames) :
    Readable (frame :: frames) :=
  List.forall_mem_cons.2 ⟨hframe, h⟩

theorem Readable.tail (h : Readable frames) : Readable frames.tail :=
  fun frame hframe => h frame (List.mem_of_mem_tail hframe)

theorem find?_insert_true (hframe : ∀ y, frame.find? y ≠ some false) (x y : Text) :
    (frame.insert x true).find? y ≠ some false := by
  by_cases hy : y = x
  · rw [hy, Table.find?_insert_self]
    nofun
  · rw [Table.find?_insert_of_ne _ _ hy]
    exact hframe y

theorem Readable.mark (h : Readable frames) (x : Text) : Readable (mark x true frames) := by
  cases frames with
  | nil => exact .nil
  | cons frame outer =>
    obtain ⟨hframe, houter⟩ := List.forall_mem_cons.1 h
    exact .cons (find?_insert_true hframe x) houter

theorem Readable.innermost (h : Readable frames) (x : Text) :
    innermost x frames ≠ some false := by
  cases frames with
  | nil => nofun
  | cons frame outer => exact h frame List.mem_cons_self x

theorem Aligned.seen (h : Aligned layers frames frames') : Seen layers frames frames' where
  distance := h.padded.distance
  innermost x := by
    have hfirst := h.readable.innermost x
    have hsecond : Scoping.innermost x frames' ≠ some false := by
      cases h.padded with
      | nil => nofun
      | own => exact hfirst
      | extra => nofun
    exact iff_of_false hsecond hfirst

theorem Pending.seen (h : Pending layers x frames frames') (hown : layers.Own) :
    Seen layers frames frames' where
  distance := h.padded.distance
  innermost y := by rw [h.padded.innermost_of_own hown]

theorem Aligned.cons (h : Aligned layers frames frames')
    (hframe : ∀ x, frame.find? x ≠ some false) :
    Aligned (false :: layers) (frame :: frames) (frame :: frames') :=
  ⟨.own _ h.padded, h.readable.cons hframe⟩

theorem Aligned.tail (h : Aligned (false :: layers) frames frames') :
    Aligned layers frames.tail frames'.tail := by
  refine ⟨?_, h.readable.tail⟩
  cases h.padded with
  | own _ hpadded => exact hpadded

theorem Aligned.extra (h : Aligned layers frames frames') :
    Aligned (true :: layers) frames (.empty :: frames') :=
  ⟨.extra h.padded, h.readable⟩

theorem Aligned.tail_extra (h : Aligned (true :: layers) frames frames') :
    Aligned layers frames frames'.tail := by
  refine ⟨?_, h.readable⟩
  cases h.padded with
  | extra hpadded => exact hpadded

theorem Aligned.pending (h : Aligned layers frames frames') (hown : layers.Own) (x : Text) :
    Pending layers x (mark x false frames) (mark x false frames') := by
  refine ⟨h.padded.mark hown x false, ?_⟩
  rw [mark_mark]
  exact h.readable.mark x

theorem Pending.aligned (h : Pending layers x frames frames') (hown : layers.Own) :
    Aligned layers (mark x true frames) (mark x true frames') :=
  ⟨h.padded.mark hown x true, h.readable⟩

end

/-! ## Steps side by side -/

namespace Step

variable {α β γ : Type}

theorem pure_bind (a : α) (f : α → Step β) : pure a >>= f = f a := rfl

theorem bind_pure (s : Step α) : s >>= pure = s := by
  funext frames
  simp only [bind_run, pure_run, List.append_nil]

theorem bind_assoc (s : Step α) (f : α → Step β) (g : β → Step γ) :
    s >>= f >>= g = s >>= fun a => f a >>= g := by
  funext frames
  simp only [bind_run, List.append_assoc]

end Step

/-- What is made of a result is made inside the scope as well as after it. -/
theorem inScope_bind_pure {α β : Type} (frame : Frame) (s : Step α) (f : α → β) :
    (inScope frame s >>= fun a => pure (f a)) = inScope frame (s >>= fun a => pure (f a)) := rfl

/-- **What two steps have in common**, done in scopes that correspond by
`P`: the issues, how their results are related, and that the scopes then
correspond by `Q`. -/
def Tandem {α β : Type} (P : List Frame → List Frame → Prop) (s : Step α) (s' : Step β)
    (Q : List Frame → List Frame → Prop) (R : α → β → Prop) : Prop :=
  ∀ frames frames', P frames frames' →
    (s' frames').issues = (s frames).issues ∧ Q (s frames).frames (s' frames').frames ∧
      R (s frames).value (s' frames').value

/-- Any two results of steps that are done for what they declare. -/
def Either (_ _ : Unit) : Prop := True

section

variable {α β γ δ : Type} {P Q Q' : List Frame → List Frame → Prop} {R : α → β → Prop}
  {S : γ → δ → Prop} {layers : Layers}

theorem Tandem.pure {a : α} {b : β} (h : R a b) : Tandem P (pure a) (pure b) P R :=
  fun _ _ hP => ⟨rfl, hP, h⟩

theorem Tandem.bind {s : Step α} {s' : Step β} {f : α → Step γ} {g : β → Step δ}
    (hs : Tandem P s s' Q R) (hfg : ∀ a b, R a b → Tandem Q (f a) (g b) Q' S) :
    Tandem P (s >>= f) (s' >>= g) Q' S := by
  intro frames frames' hP
  obtain ⟨hissues, hQ, hR⟩ := hs frames frames' hP
  obtain ⟨hissues', hQ', hS⟩ := hfg _ _ hR _ _ hQ
  refine ⟨?_, hQ', hS⟩
  simp only [Step.bind_run, hissues, hissues']

theorem Tandem.also {C : α → Prop} {s : Step α} {s' : Step β} (h : Tandem P s s' Q R)
    (hC : ∀ frames, C (s frames).value) : Tandem P s s' Q fun a b => C a ∧ R a b := by
  intro frames frames' hP
  obtain ⟨hissues, hQ, hR⟩ := h frames frames' hP
  exact ⟨hissues, hQ, hC frames, hR⟩

theorem Tandem.inScope {s : Step α} {s' : Step β} {frame : Frame}
    (hframe : ∀ x, frame.find? x ≠ some false)
    (h : Tandem (Aligned (false :: layers)) s s' (Aligned (false :: layers)) R) :
    Tandem (Aligned layers) (inScope frame s) (inScope frame s') (Aligned layers) R := by
  intro frames frames' hP
  obtain ⟨hissues, hQ, hR⟩ := h _ _ (hP.cons hframe)
  exact ⟨hissues, hQ.tail, hR⟩

/-- **A scope that only one of the walks has.** -/
theorem Tandem.extraScope {s : Step α} {s' : Step β}
    (h : Tandem (Aligned (true :: layers)) s s' (Aligned (true :: layers)) R) :
    Tandem (Aligned layers) s (Scoping.inScope .empty s') (Aligned layers) R := by
  intro frames frames' hP
  obtain ⟨hissues, hQ, hR⟩ := h _ _ hP.extra
  exact ⟨hissues, hQ.tail_extra, hR⟩

theorem find?_empty (x : Text) : (Table.empty : Frame).find? x ≠ some false := nofun

theorem complain_tandem (token : Token) (c : Complaint) :
    Tandem P (complain token c) (complain token c) P Either :=
  fun _ _ hP => ⟨rfl, hP, trivial⟩

theorem locate_tandem (hP : Shows P layers) (name : Token) :
    Tandem P (locate name) (locate name) P (Option.Rel layers.Apart) :=
  fun _ _ h => ⟨rfl, h, (hP _ _ h).distance _⟩

theorem checkReadable_tandem (hP : Shows P layers) (name : Token) :
    Tandem P (checkReadable name) (checkReadable name) P Either := by
  intro frames frames' h
  refine ⟨?_, h, trivial⟩
  simp only [checkReadable_run, (hP _ _ h).innermost]

theorem declare_tandem (hown : layers.Own) (name : Token) :
    Tandem (Aligned layers) (declare name) (declare name) (Pending layers name.lexeme) Either := by
  intro frames frames' h
  refine ⟨?_, h.pending hown _, trivial⟩
  simp only [declare_run, h.padded.innermost_of_own hown]

theorem define_tandem (hown : layers.Own) (name : Token) :
    Tandem (Pending layers name.lexeme) (define name) (define name) (Aligned layers) Either :=
  fun _ _ h => ⟨rfl, h.aligned hown, trivial⟩

theorem declareAll_tandem (hown : layers.Own) : ∀ params : List Token,
    Tandem (Aligned layers) (declareAll params) (declareAll params) (Aligned layers) Either
  | [] => .pure trivial
  | name :: rest =>
    (declare_tandem hown name).bind fun _ _ _ => (define_tandem hown name).bind fun _ _ _ =>
      declareAll_tandem hown rest

end

theorem Aligned.shows {layers : Layers} : Shows (Aligned layers) layers := fun _ _ => Aligned.seen

theorem Pending.shows {layers : Layers} (hown : layers.Own) (x : Text) :
    Shows (Pending layers x) layers :=
  fun _ _ h => h.seen hown

/-! ## Expressions -/

section

variable {P : List Frame → List Frame → Prop} {layers : Layers}

mutual

/-- **An expression is resolved the same in both walks.** -/
theorem resolveExpr_tandem (hP : Shows P layers) (around : Surroundings) : ∀ e : Expr Unit,
    Tandem P (resolveExpr around e) (resolveExpr around e) P (Expr.WrittenOut layers)
  | .literal token value => .pure (.literal token value)
  | .grouping paren inner =>
    (resolveExpr_tandem hP around inner).bind fun _ _ h => .pure (.grouping paren h)
  | .unary op operand =>
    (resolveExpr_tandem hP around operand).bind fun _ _ h => .pure (.unary op h)
  | .binary left op right =>
    (resolveExpr_tandem hP around left).bind fun _ _ hleft =>
      (resolveExpr_tandem hP around right).bind fun _ _ hright => .pure (.binary op hleft hright)
  | .ternary cond mark yes no =>
    (resolveExpr_tandem hP around cond).bind fun _ _ hcond =>
      (resolveExpr_tandem hP around yes).bind fun _ _ hyes =>
        (resolveExpr_tandem hP around no).bind fun _ _ hno => .pure (.ternary mark hcond hyes hno)
  | .logical left op right =>
    (resolveExpr_tandem hP around left).bind fun _ _ hleft =>
      (resolveExpr_tandem hP around right).bind fun _ _ hright => .pure (.logical op hleft hright)
  | .var name _ =>
    (checkReadable_tandem hP name).bind fun _ _ _ =>
      (locate_tandem hP name).bind fun _ _ h => .pure (.var ⟨rfl, h⟩)
  | .assign name _ value =>
    (resolveExpr_tandem hP around value).bind fun _ _ hvalue =>
      (locate_tandem hP name).bind fun _ _ h => .pure (.assign ⟨rfl, h⟩ hvalue)
  | .call callee paren args =>
    (resolveExpr_tandem hP around callee).bind fun _ _ hcallee =>
      (resolveExprs_tandem hP around args).bind fun _ _ hargs => .pure (.call paren hcallee hargs)
  | .get object name =>
    (resolveExpr_tandem hP around object).bind fun _ _ h => .pure (.get name h)
  | .set object name value =>
    (resolveExpr_tandem hP around value).bind fun _ _ hvalue =>
      (resolveExpr_tandem hP around object).bind fun _ _ hobject => .pure (.set name hobject hvalue)
  | .receiver keyword _ => by
    simp only [resolveExpr]
    split
    · exact (locate_tandem hP keyword).bind fun _ _ h => .pure (.receiver h)
    · exact (complain_tandem keyword _).bind fun _ _ _ => .pure (.receiver .none)

/-- The same for expressions in a row. -/
theorem resolveExprs_tandem (hP : Shows P layers) (around : Surroundings) : ∀ es : List (Expr Unit),
    Tandem P (resolveExprs around es) (resolveExprs around es) P (Expr.WrittenOutAll layers)
  | [] => .pure .nil
  | e :: rest =>
    (resolveExpr_tandem hP around e).bind fun _ _ h =>
      (resolveExprs_tandem hP around rest).bind fun _ _ hrest => .pure (.cons h hrest)

end

/-- The same for an expression that may be missing. -/
theorem resolveOption_tandem (hP : Shows P layers) (around : Surroundings)
    (e : Option (Expr Unit)) :
    Tandem P (resolveOption around e) (resolveOption around e) P
      (Expr.WrittenOutOption layers) := by
  cases e with
  | none => exact .pure .none
  | some e => exact (resolveExpr_tandem hP around e).bind fun _ _ h => .pure (.some h)

/-- The same for the superclass of a class. -/
theorem resolveSuperclass_tandem (hP : Shows P layers) (name : Token)
    (superclass : Option (Token × Unit)) :
    Tandem P (resolveSuperclass name superclass) (resolveSuperclass name superclass) P
      (Stmt.SuperclassVaries Layers.variation layers) := by
  cases superclass with
  | none => exact .pure .none
  | some superclass =>
    have hrest : Tandem P
        (do checkReadable superclass.1; let a ← locate superclass.1; return some (superclass.1, a))
        (do checkReadable superclass.1; let a ← locate superclass.1; return some (superclass.1, a))
        P (Stmt.SuperclassVaries Layers.variation layers) :=
      (checkReadable_tandem hP superclass.1).bind fun _ _ _ =>
        (locate_tandem hP superclass.1).bind fun _ _ h => .pure (.some ⟨rfl, h⟩)
    simp only [resolveSuperclass]
    split
    · exact (complain_tandem superclass.1 _).bind fun _ _ _ => hrest
    · exact hrest

end

/-! ## Loops -/

section

variable {layers : Layers} {around : Surroundings} {body : Option (Stmt Unit)}

/-- A condition that is missing holds always. -/
theorem cond_tandem (keyword : Token) (cond : Option (Expr Unit)) :
    Tandem (Aligned layers) (resolveOption around cond)
      (resolveExpr around (cond.getD (.literal keyword (.bool true)))) (Aligned layers)
      (Expr.WrittenOutCond layers keyword) := by
  cases cond with
  | none => exact .pure .always
  | some cond =>
    rw [Option.getD_some, ← Step.bind_pure (resolveExpr around cond)]
    exact (resolveExpr_tandem Aligned.shows around cond).bind fun _ _ h => .pure (.given h)

/-- A statement is resolved the same in both walks, however many extra
scopes the second one has. -/
def Written (around : Surroundings) (s : Stmt Unit) : Prop :=
  ∀ layers : Layers, Tandem (Aligned layers) (resolveStmt around s)
    (resolveStmt around s.desugar) (Aligned layers) (Stmt.WrittenOut layers)

theorem optionStmt_tandem (hbody : ∀ s ∈ body, Written around s) :
    Tandem (Aligned layers) (resolveOptionStmt around body)
      (resolveOptionStmt around (Stmt.desugarOption body)) (Aligned layers)
      (Stmt.WrittenOutOption layers) := by
  cases body with
  | none => exact .pure .none
  | some body => exact (hbody body rfl layers).bind fun _ _ h => .pure (.some h)

/-- **What a loop repeats**: the step comes after the body in both walks. -/
theorem rounds_tandem (hbody : ∀ s ∈ body, Written around s) (keyword : Token)
    (step : Option (Expr Unit)) :
    Tandem (Aligned layers)
      (do
        let body ← resolveOptionStmt around body
        let step ← resolveOption around step
        return (step, body))
      (resolveOptionStmt around (Stmt.repeated keyword step (Stmt.desugarOption body)))
      (Aligned layers)
      fun parts rounds => Stmt.WrittenOutRounds layers keyword parts.1 parts.2 rounds := by
  cases step with
  | none =>
    rw [Stmt.repeated, ← Step.bind_pure (resolveOptionStmt around (Stmt.desugarOption body))]
    exact (optionStmt_tandem hbody).bind fun _ _ h =>
      .pure (Stmt.WrittenOutRounds.bodyOnly h)
  | some step =>
    cases body with
    | none =>
      simp only [Stmt.desugarOption, Stmt.repeated, resolveOptionStmt, resolveStmt, resolveOption,
        Step.pure_bind, Step.bind_assoc]
      exact (resolveExpr_tandem Aligned.shows around step).bind fun _ _ h => .pure (.stepOnly h)
    | some body =>
      simp only [Stmt.desugarOption, Stmt.repeated, resolveOptionStmt, resolveStmts, resolveStmt,
        resolveOption, inScope_bind_pure, Step.pure_bind, Step.bind_assoc]
      -- with a body and a step, the second walk has a scope that the first one lacks
      refine .extraScope ((hbody body rfl _).bind fun _ _ hbody => ?_)
      exact (resolveExpr_tandem Aligned.shows around step).bind fun _ _ hstep =>
        .pure (.both hbody hstep)

/-- **The loop itself**, without what it starts with. -/
theorem loop_tandem {γ : Type} {S : γ → Stmt Address → Prop} (hbody : ∀ s ∈ body, Written around s)
    (keyword : Token) (cond step : Option (Expr Unit))
    {f : Option (Expr Address) → Option (Expr Address) → Option (Stmt Address) → γ}
    {g : Stmt Address → Stmt Address}
    (hfg : ∀ {cond cond' step body rounds}, Expr.WrittenOutCond layers keyword cond cond' →
      Stmt.WrittenOutRounds layers keyword step body rounds →
      S (f cond step body) (g (.loop keyword cond' rounds))) :
    Tandem (Aligned layers)
      (do
        let cond ← resolveOption around cond
        let body ← resolveOptionStmt around body
        let step ← resolveOption around step
        return f cond step body)
      (do
        let s ← resolveStmt around (.loop keyword (cond.getD (.literal keyword (.bool true)))
          (Stmt.repeated keyword step (Stmt.desugarOption body)))
        return g s)
      (Aligned layers) S := by
  simp only [resolveStmt, Step.pure_bind, Step.bind_assoc]
  refine (cond_tandem keyword cond).bind fun cond cond' hcond => ?_
  have hparts := (rounds_tandem hbody keyword step).bind (S := S)
    (f := fun parts => pure (f cond parts.1 parts.2))
    (g := fun rounds => pure (g (.loop keyword cond' rounds)))
    fun _ _ hrounds => .pure (hfg hcond hrounds)
  simpa only [Step.pure_bind, Step.bind_assoc] using hparts

end

/-! ## Statements -/

theorem resolveStmt_forLoop (around : Surroundings) (keyword : Token) (initial : Stmt Unit)
    (cond step : Option (Expr Unit)) (body : Option (Stmt Unit)) :
    resolveStmt around (.forLoop keyword (some initial) cond step body) =
      inScope .empty (do
        let initial ← resolveStmt around initial
        let cond ← resolveOption around cond
        let body ← resolveOptionStmt around body
        let step ← resolveOption around step
        return .forLoop keyword (some initial) cond step body) := by
  simp only [resolveStmt, inScopeIf, Option.isSome_some, if_true, resolveOptionStmt,
    Step.pure_bind, Step.bind_assoc]

theorem resolveStmt_pair (around : Surroundings) (brace : Token) (s t : Stmt Unit) :
    resolveStmt around (.block brace [s, t]) =
      inScope .empty (do
        let s ← resolveStmt around s
        let t ← resolveStmt around t
        return .block brace [s, t]) := by
  rw [resolveStmt, inScope_bind_pure]
  simp only [resolveStmts, Step.pure_bind, Step.bind_assoc]

theorem opens_resolveStmt {around : Surroundings} {s : Stmt Unit} {frames : List Frame}
    (h : s.opens = true) : (resolveStmt around s frames).value.opens = true := by
  cases s <;> first | rfl | cases h

mutual

/-- **A statement is resolved the same with its `for` loops written out**,
if it declares nothing in an extra scope. -/
theorem resolveStmt_tandem : ∀ (s : Stmt Unit) (around : Surroundings) (layers : Layers),
    s.Placed → (s.declared ≠ none → layers.Own) →
    Tandem (Aligned layers) (resolveStmt around s) (resolveStmt around s.desugar)
      (Aligned layers) (Stmt.WrittenOut layers)
  | .block brace body, around, layers, hplaced, _ =>
    (Tandem.inScope find?_empty (resolveStmts_tandem body around _ hplaced rfl)).bind
      fun _ _ h => .pure (.block brace h)
  | .expr e, around, _, _, _ =>
    (resolveExpr_tandem Aligned.shows around e).bind fun _ _ h => .pure (.expr h)
  | .print keyword value, around, _, _, _ =>
    (resolveExpr_tandem Aligned.shows around value).bind fun _ _ h => .pure (.print keyword h)
  | .varDecl name initial, around, layers, _, hown => by
    have hown := hown nofun
    exact (declare_tandem hown name).bind fun _ _ _ =>
      (resolveOption_tandem (Pending.shows hown _) around initial).bind fun _ _ h =>
        (define_tandem hown name).bind fun _ _ _ => .pure (.varDecl name hown h)
  | .branch keyword cond yes no, around, layers, ⟨⟨hdeclared, hyes⟩, hno⟩, _ =>
    (resolveExpr_tandem Aligned.shows around cond).bind fun _ _ hcond =>
      (resolveStmt_tandem yes around layers hyes fun h => absurd hdeclared h).bind
        fun _ _ hyes =>
          (optionStmt_tandem (resolveOptionStmt_written no around hno)).bind
            fun _ _ hno => .pure (.branch keyword hcond hyes hno)
  | .loop keyword cond body, around, layers, hplaced, _ =>
    (resolveExpr_tandem Aligned.shows around cond).bind fun _ _ hcond =>
      (optionStmt_tandem (resolveOptionStmt_written body around hplaced)).bind
        fun _ _ hbody => .pure (.loop keyword hcond hbody)
  | .forLoop keyword none cond step body, around, layers, ⟨_, hbody⟩, _ => by
    have hloop := loop_tandem (resolveOptionStmt_written body around hbody) keyword cond step
      (f := .forLoop keyword none) (g := fun s => s) (S := Stmt.WrittenOut layers) .forLoop
    rwa [Step.bind_pure] at hloop
  | .forLoop keyword (some initial) cond step body, around, layers, ⟨hopens, hbody⟩, _ => by
    have hopens := hopens initial rfl
    have hinitial := (resolveStmt_tandem initial around (false :: layers)
      (Stmt.placed_of_opens hopens) fun _ => rfl).also (C := fun s => s.opens = true)
      fun _ => opens_resolveStmt hopens
    -- both walks have a scope for what the loop starts with
    rw [resolveStmt_forLoop, Stmt.desugar, Stmt.desugarOption, Stmt.writeOut, resolveStmt_pair]
    refine .inScope find?_empty (hinitial.bind fun s s' ⟨hopens, hs⟩ => ?_)
    exact loop_tandem (resolveOptionStmt_written body around hbody) keyword cond step
      (.forScope hopens hs)
  | .function decl, around, layers, hplaced, hown => by
    have hown := hown nofun
    have hname : (Stmt.desugarRoutine decl).name = decl.name := Stmt.name_desugarRoutine decl
    simp only [Stmt.desugar, resolveStmt, hname]
    exact (declare_tandem hown decl.name).bind fun _ _ _ =>
      (define_tandem hown decl.name).bind fun _ _ _ =>
        (resolveRoutine_tandem decl around layers hplaced).bind fun _ _ h =>
          .pure (.function hown h)
  | .ret keyword value, around, layers, _, _ => by
    have hvalue : Tandem (Aligned layers)
        (do let value ← resolveOption around value; return .ret keyword value)
        (do let value ← resolveOption around value; return .ret keyword value)
        (Aligned layers) (Stmt.WrittenOut layers) :=
      (resolveOption_tandem Aligned.shows around value).bind fun _ _ h => .pure (.ret keyword h)
    simp only [Stmt.desugar, resolveStmt]
    split
    · exact hvalue
    · exact (complain_tandem keyword _).bind fun _ _ _ => hvalue
  | .classDecl name superclass methods, around, layers, hplaced, hown => by
    have hown := hown nofun
    have hthis : ∀ x, thisFrame.find? x ≠ some false := find?_insert_true find?_empty _
    exact (declare_tandem hown name).bind fun _ _ _ => (define_tandem hown name).bind fun _ _ _ =>
      (resolveSuperclass_tandem Aligned.shows name superclass).bind fun _ _ hsuperclass =>
        (Tandem.inScope hthis (resolveMethods_tandem methods _ _ hplaced)).bind
          fun _ _ hmethods => .pure (.classDecl name hown hsuperclass hmethods)

/-- The same for statements in a row. -/
theorem resolveStmts_tandem : ∀ (ss : List (Stmt Unit)) (around : Surroundings) (layers : Layers),
    Stmt.PlacedAll ss → layers.Own →
    Tandem (Aligned layers) (resolveStmts around ss) (resolveStmts around (Stmt.desugarAll ss))
      (Aligned layers) (Stmt.WrittenOutAll layers)
  | [], _, _, _, _ => .pure .nil
  | s :: rest, around, layers, ⟨hs, hrest⟩, hown =>
    (resolveStmt_tandem s around layers hs fun _ => hown).bind fun _ _ h =>
      (resolveStmts_tandem rest around layers hrest hown).bind fun _ _ hrest =>
        .pure (.cons h hrest)

/-- The same for a statement that may be missing and declares nothing. -/
theorem resolveOptionStmt_written : ∀ (s : Option (Stmt Unit)) (around : Surroundings),
    Stmt.PlacedOption s → ∀ t ∈ s, Written around t
  | none, _, _ => nofun
  | some s, around, ⟨hdeclared, hs⟩ => by
    rintro _ ⟨⟩ layers
    exact resolveStmt_tandem s around layers hs fun h => absurd hdeclared h

/-- The same for a function. -/
theorem resolveRoutine_tandem : ∀ (decl : Routine (Stmt Unit)) (around : Surroundings)
    (layers : Layers), Stmt.PlacedRoutine decl →
    Tandem (Aligned layers) (resolveRoutine around decl)
      (resolveRoutine around (Stmt.desugarRoutine decl)) (Aligned layers)
      (Stmt.WrittenOutRoutine layers)
  | ⟨name, params, body⟩, around, layers, hplaced => by
    have hown : Layers.Own (false :: layers) := rfl
    exact Tandem.inScope find?_empty ((declareAll_tandem hown params).bind fun _ _ _ =>
      (resolveStmts_tandem body _ _ hplaced hown).bind fun _ _ h => .pure (.intro name params h))

/-- The same for the methods of a class. -/
theorem resolveMethods_tandem : ∀ (ms : List (Routine (Stmt Unit))) (around : Surroundings)
    (layers : Layers), Stmt.PlacedMethods ms →
    Tandem (Aligned layers) (resolveMethods around ms)
      (resolveMethods around (Stmt.desugarMethods ms)) (Aligned layers)
      (Stmt.WrittenOutMethods layers)
  | [], _, _, _ => .pure .nil
  | m :: rest, around, layers, ⟨hm, hrest⟩ =>
    (resolveRoutine_tandem m around layers hm).bind fun _ _ h =>
      (resolveMethods_tandem rest around layers hrest).bind fun _ _ hrest =>
        .pure (.cons h hrest)

end

/-- **A program is resolved the same with its `for` loops written out**: the
issues are the same, and the code differs only in what writing out changes. -/
theorem resolve_desugarAll {p : Program Unit} (hplaced : Stmt.PlacedAll p) :
    (resolve (Stmt.desugarAll p)).issues = (resolve p).issues ∧
      Stmt.WrittenOutAll [] (resolve p).value (resolve (Stmt.desugarAll p)).value := by
  obtain ⟨hissues, -, hvalue⟩ :=
    resolveStmts_tandem p {} [] hplaced rfl [] [] ⟨.nil, .nil⟩
  exact ⟨hissues, hvalue⟩

end Scoping

end TanLang
