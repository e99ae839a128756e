import TanLang.Machine
import TanLang.Value.Operator
/-!
# Evaluation

What the statements and expressions of a resolved program do to the
machine. Operands are evaluated from left to right, a callee before its
arguments, the object of a field before the value set.

The functions call each other, and each carries a bound on how deep they
may do so. **The bound only ever cuts a run short**: an answer other than
`exhausted` does not depend on it.
-/

namespace TanLang

namespace Eval

open TanLang.Action

/-- The object of a property, which has to be an instance. -/
def expectInstance (token : Token) (fault : Fault) : Value → Action InstanceId
  | .instanceRef i => result i
  | _ => raise token fault

/-- A property of an instance. -/
def readProperty (i : InstanceId) (name : Token) : Action Value := fun m =>
  match m.heap.property? i name.lexeme with
  | none => .raised ⟨.undefinedProperty name.lexeme, name⟩ m
  | some p =>
    let (heap, v) := m.heap.fetch i p
    .done v { m with heap := heap }

/-- A field set on an instance. -/
def writeField (i : InstanceId) (name : Token) (v : Value) : Action Unit := fun m =>
  .done () { m with heap := m.heap.setField i name.lexeme v }

/-- A function declared in the active scope. -/
def declareFunction (decl : Routine (Stmt Address)) : Action Unit := fun m =>
  let (heap, f) := m.heap.newFunction ⟨decl, m.active, false⟩
  .done () { m with heap := heap.define m.active decl.name.lexeme (.function f) }

/-- The methods of a class declared in a scope; of two with one name the
later one counts. -/
def methodTable (scope : ScopeId) (methods : List (Routine (Stmt Address))) : Table Function :=
  methods.foldl
    (fun table decl =>
      table.insert decl.name.lexeme ⟨decl, scope, decl.name.lexeme == initName⟩)
    .empty

/-- A class declared in the active scope: its name is bound first, and then
given the class. -/
def declareClass (name : Token) (superclass : Option ClassId)
    (methods : List (Routine (Stmt Address))) : Action Unit := fun m =>
  let heap := m.heap.define m.active name.lexeme .nil
  let (heap, c) := heap.newClass ⟨name.lexeme, superclass, methodTable m.active methods⟩
  match heap.holder m.active name.lexeme with
  | some s => .done () { m with heap := heap.define s name.lexeme (.classRef c) }
  | none => .raised ⟨.undefinedVariable name.lexeme, name⟩ { m with heap := heap }

/-- The superclass of a class, which has to be a class. -/
def readSuperclass (rules : Rules) : Option (Token × Address) → Action (Option ClassId)
  | none => return none
  | some (name, address) => do
    match ← read rules name address with
    | .classRef c => return some c
    | _ => raise name .superclassNotClass

/-- The check that a value can be called with so many arguments. -/
def checkCall (paren : Token) (callee : Value) (given : Nat) : Action Unit := fun m =>
  match m.heap.arity? callee with
  | none => .raised ⟨.notCallable, paren⟩ m
  | some expected =>
    if given = expected then .done () m
    else .raised ⟨.wrongArity expected given, paren⟩ m

/-- **The limit on nested calls**: with that many open there can be no
other, of whatever kind. -/
def checkDepth (rules : Rules) (paren : Token) : Action Unit := fun m =>
  if rules.maxDepth ≤ m.depth then .raised ⟨.stackOverflow, paren⟩ m else .done () m

/-- A native called. It fails at the call's closing parenthesis. Whether it
fails or not, the registry is as the native leaves it. -/
def callNative (rules : Rules) (paren : Token) (f : NativeId) (args : List Value) :
    Action Value := fun m =>
  match m.heap.native? f with
  | none => .crashed m
  | some native =>
    let shown := args.map m.heap.argument
    let after := m.keep (native.leaves (m.world rules) shown)
    match native.run (m.world rules) shown with
    | .ok v => .done v after
    | .error message => .raised ⟨.native message, paren⟩ after

/-- A new instance of a class, and the `init` method bound to it, if there
is one. -/
def instantiate (c : ClassId) : Action (InstanceId × Option Function) := fun m =>
  let (heap, i) := m.heap.newInstance c
  match heap.method? c initName with
  | none => .done (i, none) { m with heap := heap }
  | some method =>
    let (heap, bound) := heap.bind method i
    .done (i, some bound) { m with heap := heap }

/-- The function at a place. -/
def fetchFunction (f : FunctionId) : Action Function := fun m =>
  match m.heap.function? f with
  | some f => .done f m
  | none => .crashed m

/-- The scope of a call, for which there have to be enough arguments. -/
def enterCall (f : Function) (args : List Value) : Action ScopeId := fun m =>
  if args.length < f.decl.params.length then .crashed m
  else
    let (heap, s) := m.heap.enter f args
    .done s { m with heap := heap }

/-- What a call answers with. -/
def leaveCall (f : Function) (c : Completion) : Action Value := fun m =>
  .done (m.heap.answer f c) m

mutual

/-- The value of an expression. -/
def evaluate (rules : Rules) : Nat → Expr Address → Action Value
  | 0, _ => stop
  | n + 1, e =>
    match e with
    | .literal _ value => return .ofLiteral value
    | .grouping _ inner => evaluate rules n inner
    | .unary op operand => do
      let v ← evaluate rules n operand
      liftFault op (v.prefixed op)
    | .binary left op right => do
      let l ← evaluate rules n left
      let r ← evaluate rules n right
      liftFault op (Value.combine op l r)
    | .ternary cond _ yes no => do
      let c ← evaluate rules n cond
      if c.truthy then evaluate rules n yes else evaluate rules n no
    | .logical left op right => do
      let l ← evaluate rules n left
      if l.decides op then return l else evaluate rules n right
    | .var name address => read rules name address
    | .receiver keyword address => read rules keyword address
    | .assign name address value => do
      let v ← evaluate rules n value
      write rules name address v
      return v
    | .call callee paren args => do
      let f ← evaluate rules n callee
      let args ← evaluateAll rules n args
      apply rules n paren f args
    | .get object name => do
      let o ← evaluate rules n object
      let i ← expectInstance name .noProperties o
      readProperty i name
    | .set object name value => do
      let o ← evaluate rules n object
      let i ← expectInstance name .noFields o
      let v ← evaluate rules n value
      writeField i name v
      return v

/-- The values of expressions in a row. -/
def evaluateAll (rules : Rules) : Nat → List (Expr Address) → Action (List Value)
  | 0, _ => stop
  | n + 1, es =>
    match es with
    | [] => return []
    | e :: rest => do
      let v ← evaluate rules n e
      let vs ← evaluateAll rules n rest
      return v :: vs

/-- A call, checked and counted. -/
def apply (rules : Rules) : Nat → Token → Value → List Value → Action Value
  | 0, _, _, _ => stop
  | n + 1, paren, callee, args => do
    checkCall paren callee args.length
    checkDepth rules paren
    counted (invoke rules n paren callee args)

/-- What a call does. -/
def invoke (rules : Rules) : Nat → Token → Value → List Value → Action Value
  | 0, _, _, _ => stop
  | n + 1, paren, callee, args =>
    match callee with
    | .function f => do
      let f ← fetchFunction f
      runFunction rules n f args
    | .native f => callNative rules paren f args
    | .classRef c => do
      let (i, init) ← instantiate c
      match init with
      | none => return .instanceRef i
      | some init =>
        let _ ← runFunction rules n init args
        return .instanceRef i
    | _ => raise paren .notCallable

/-- The body of a function run with arguments. -/
def runFunction (rules : Rules) : Nat → Function → List Value → Action Value
  | 0, _, _ => stop
  | n + 1, f, args => do
    let s ← enterCall f args
    let c ← inScope s (executeAll rules n f.decl.body)
    leaveCall f c

/-- A statement run. -/
def execute (rules : Rules) : Nat → Stmt Address → Action Completion
  | 0, _ => stop
  | n + 1, s =>
    match s with
    | .expr e => do
      let _ ← evaluate rules n e
      return .normal
    | .print _ value => do
      let v ← evaluate rules n value
      print v
      return .normal
    | .varDecl name initial => do
      let v ← evaluateOption rules n initial
      define name.lexeme v
      return .normal
    | .block _ body => inNewScope (executeAll rules n body)
    | .branch _ cond yes no => do
      let c ← evaluate rules n cond
      if c.truthy then execute rules n yes else executeOption rules n no
    | .loop _ cond body => repeatWhile rules n cond body
    | .forLoop _ initial cond step body =>
      match initial with
      | none => repeatFor rules n cond step body
      | some initial =>
        inNewScope do
          let _ ← execute rules n initial
          repeatFor rules n cond step body
    | .function decl => do
      declareFunction decl
      return .normal
    | .ret _ value => do
      let v ← evaluateOption rules n value
      return .returning v
    | .classDecl name superclass methods => do
      let superclass ← readSuperclass rules superclass
      declareClass name superclass methods
      return .normal

/-- An expression that may be missing; `nil` if it is. -/
def evaluateOption (rules : Rules) : Nat → Option (Expr Address) → Action Value
  | 0, _ => stop
  | n + 1, e =>
    match e with
    | none => return .nil
    | some e => evaluate rules n e

/-- A statement that may be missing. -/
def executeOption (rules : Rules) : Nat → Option (Stmt Address) → Action Completion
  | 0, _ => stop
  | n + 1, s =>
    match s with
    | none => return .normal
    | some s => execute rules n s

/-- Statements in a row, up to the first that does not run to its end. -/
def executeAll (rules : Rules) : Nat → List (Stmt Address) → Action Completion
  | 0, _ => stop
  | n + 1, ss =>
    match ss with
    | [] => return .normal
    | s :: rest => do
      match ← execute rules n s with
      | .returning v => return .returning v
      | .normal => executeAll rules n rest

/-- A `while` loop. -/
def repeatWhile (rules : Rules) : Nat → Expr Address → Option (Stmt Address) → Action Completion
  | 0, _, _ => stop
  | n + 1, cond, body => do
    let c ← evaluate rules n cond
    if c.truthy then
      match ← executeOption rules n body with
      | .returning v => return .returning v
      | .normal => repeatWhile rules n cond body
    else return .normal

/-- A `for` loop after its first part: the body and then the step, both in
the scope of the loop. -/
def repeatFor (rules : Rules) : Nat → Option (Expr Address) → Option (Expr Address) →
    Option (Stmt Address) → Action Completion
  | 0, _, _, _ => stop
  | n + 1, cond, step, body => do
    let c ← evaluateCondition rules n cond
    if c.truthy then
      match ← executeOption rules n body with
      | .returning v => return .returning v
      | .normal =>
        let _ ← evaluateOption rules n step
        repeatFor rules n cond step body
    else return .normal

/-- The condition of a `for` loop, which holds if it is missing. -/
def evaluateCondition (rules : Rules) : Nat → Option (Expr Address) → Action Value
  | 0, _ => stop
  | n + 1, e =>
    match e with
    | none => return .bool true
    | some e => evaluate rules n e

end

end Eval

end TanLang
