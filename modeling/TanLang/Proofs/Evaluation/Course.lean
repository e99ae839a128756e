import TanLang.Session
/-!
# Evaluation — the course of a run

The functions that evaluate a program call each other. A task is such a
call, or a single use of a name; `Calls` says which tasks a task calls and
in which machine, and `Reaches` follows the calls down. So **every moment of
a run at which code is evaluated or a name is used** is a task that is
reached, and the machine it is reached in.
-/

namespace TanLang

namespace Eval

/-- Something that evaluation has to do. -/
inductive Task where
  | evaluate (e : Expr Address)
  | evaluateAll (es : List (Expr Address))
  | apply (paren : Token) (callee : Value) (args : List Value)
  | invoke (paren : Token) (callee : Value) (args : List Value)
  | runFunction (f : Function) (args : List Value)
  | leaveCall (f : Function) (c : Completion)
  | execute (s : Stmt Address)
  | evaluateOption (e : Option (Expr Address))
  | executeOption (s : Option (Stmt Address))
  | executeAll (ss : List (Stmt Address))
  | repeatWhile (cond : Expr Address) (body : Option (Stmt Address))
  | repeatFor (cond step : Option (Expr Address)) (body : Option (Stmt Address))
  | evaluateCondition (e : Option (Expr Address))
  /-- The value of a name is asked for. -/
  | read (name : Token) (address : Address)
  /-- A value is assigned to a name. -/
  | write (name : Token) (address : Address) (v : Value)

/-- The machine inside a new scope. -/
def entered (m : Machine) : Machine :=
  { m with
    heap := (m.heap.newScope (some m.active)).1
    active := (m.heap.newScope (some m.active)).2 }

/-- **Which tasks a task calls**, and in which machine. The task runs with
the bound `n + 1`, what it calls with the bound `n`. -/
inductive Calls (rules : Rules) (n : Nat) : Task → Machine → Task → Machine → Prop where
  | grouping {paren inner m} :
      Calls rules n (.evaluate (.grouping paren inner)) m (.evaluate inner) m
  | unary {op operand m} : Calls rules n (.evaluate (.unary op operand)) m (.evaluate operand) m
  | left {left op right m} : Calls rules n (.evaluate (.binary left op right)) m (.evaluate left) m
  | right {left op right m l m'} (hleft : evaluate rules n left m = .done l m') :
      Calls rules n (.evaluate (.binary left op right)) m (.evaluate right) m'
  | cond {cond mark yes no m} :
      Calls rules n (.evaluate (.ternary cond mark yes no)) m (.evaluate cond) m
  | yes {cond mark yes no m c m'} (hcond : evaluate rules n cond m = .done c m')
      (htruthy : c.truthy = true) :
      Calls rules n (.evaluate (.ternary cond mark yes no)) m (.evaluate yes) m'
  | no {cond mark yes no m c m'} (hcond : evaluate rules n cond m = .done c m')
      (htruthy : c.truthy = false) :
      Calls rules n (.evaluate (.ternary cond mark yes no)) m (.evaluate no) m'
  | logicalLeft {left op right m} :
      Calls rules n (.evaluate (.logical left op right)) m (.evaluate left) m
  | logicalRight {left op right m l m'} (hleft : evaluate rules n left m = .done l m')
      (hdecides : l.decides op = false) :
      Calls rules n (.evaluate (.logical left op right)) m (.evaluate right) m'
  | var {name address m} : Calls rules n (.evaluate (.var name address)) m (.read name address) m
  | receiver {keyword address m} :
      Calls rules n (.evaluate (.receiver keyword address)) m (.read keyword address) m
  | assigned {name address value m} :
      Calls rules n (.evaluate (.assign name address value)) m (.evaluate value) m
  | assign {name address value m v m'} (hvalue : evaluate rules n value m = .done v m') :
      Calls rules n (.evaluate (.assign name address value)) m (.write name address v) m'
  | callee {callee paren args m} :
      Calls rules n (.evaluate (.call callee paren args)) m (.evaluate callee) m
  | args {callee paren args m f m'} (hcallee : evaluate rules n callee m = .done f m') :
      Calls rules n (.evaluate (.call callee paren args)) m (.evaluateAll args) m'
  | call {callee paren args m f m' vs m''} (hcallee : evaluate rules n callee m = .done f m')
      (hargs : evaluateAll rules n args m' = .done vs m'') :
      Calls rules n (.evaluate (.call callee paren args)) m (.apply paren f vs) m''
  | object {object name m} : Calls rules n (.evaluate (.get object name)) m (.evaluate object) m
  | target {object name value m} :
      Calls rules n (.evaluate (.set object name value)) m (.evaluate object) m
  | field {object name value m o m' i m''} (hobject : evaluate rules n object m = .done o m')
      (hinstance : expectInstance name .noFields o m' = .done i m'') :
      Calls rules n (.evaluate (.set object name value)) m (.evaluate value) m''
  | firstExpr {e rest m} : Calls rules n (.evaluateAll (e :: rest)) m (.evaluate e) m
  | restExprs {e rest m v m'} (hfirst : evaluate rules n e m = .done v m') :
      Calls rules n (.evaluateAll (e :: rest)) m (.evaluateAll rest) m'
  | apply {paren callee args m m' m''}
      (hcall : checkCall paren callee args.length m = .done () m')
      (hdepth : checkDepth rules paren m' = .done () m'') :
      Calls rules n (.apply paren callee args) m (.invoke paren callee args)
        { m'' with depth := m''.depth + 1 }
  | function {paren f args m fn m'} (hfetch : fetchFunction f m = .done fn m') :
      Calls rules n (.invoke paren (.function f) args) m (.runFunction fn args) m'
  | init {paren c args m i init m'} (hmade : instantiate c m = .done (i, some init) m') :
      Calls rules n (.invoke paren (.classRef c) args) m (.runFunction init args) m'
  | body {f args m s m'} (henter : enterCall f args m = .done s m') :
      Calls rules n (.runFunction f args) m (.executeAll f.decl.body) { m' with active := s }
  | leave {f args m s m' c m''} (henter : enterCall f args m = .done s m')
      (hbody : Action.inScope s (executeAll rules n f.decl.body) m' = .done c m'') :
      Calls rules n (.runFunction f args) m (.leaveCall f c) m''
  | expr {e m} : Calls rules n (.execute (.expr e)) m (.evaluate e) m
  | print {keyword value m} : Calls rules n (.execute (.print keyword value)) m (.evaluate value) m
  | varDecl {name initial m} :
      Calls rules n (.execute (.varDecl name initial)) m (.evaluateOption initial) m
  | block {brace body m} :
      Calls rules n (.execute (.block brace body)) m (.executeAll body) (entered m)
  | branch {keyword cond yes no m} :
      Calls rules n (.execute (.branch keyword cond yes no)) m (.evaluate cond) m
  | branchYes {keyword cond yes no m c m'} (hcond : evaluate rules n cond m = .done c m')
      (htruthy : c.truthy = true) :
      Calls rules n (.execute (.branch keyword cond yes no)) m (.execute yes) m'
  | branchNo {keyword cond yes no m c m'} (hcond : evaluate rules n cond m = .done c m')
      (htruthy : c.truthy = false) :
      Calls rules n (.execute (.branch keyword cond yes no)) m (.executeOption no) m'
  | loop {keyword cond body m} :
      Calls rules n (.execute (.loop keyword cond body)) m (.repeatWhile cond body) m
  | forLoop {keyword cond step body m} :
      Calls rules n (.execute (.forLoop keyword none cond step body)) m
        (.repeatFor cond step body) m
  | forInitial {keyword initial cond step body m} :
      Calls rules n (.execute (.forLoop keyword (some initial) cond step body)) m
        (.execute initial) (entered m)
  | forAfter {keyword initial cond step body m c m'}
      (hinitial : execute rules n initial (entered m) = .done c m') :
      Calls rules n (.execute (.forLoop keyword (some initial) cond step body)) m
        (.repeatFor cond step body) m'
  | ret {keyword value m} :
      Calls rules n (.execute (.ret keyword value)) m (.evaluateOption value) m
  | superclass {name sup address methods m} :
      Calls rules n (.execute (.classDecl name (some (sup, address)) methods)) m
        (.read sup address) m
  | someExpr {e m} : Calls rules n (.evaluateOption (some e)) m (.evaluate e) m
  | someStmt {s m} : Calls rules n (.executeOption (some s)) m (.execute s) m
  | firstStmt {s rest m} : Calls rules n (.executeAll (s :: rest)) m (.execute s) m
  | restStmts {s rest m m'} (hfirst : execute rules n s m = .done .normal m') :
      Calls rules n (.executeAll (s :: rest)) m (.executeAll rest) m'
  | whileCond {cond body m} : Calls rules n (.repeatWhile cond body) m (.evaluate cond) m
  | whileBody {cond body m c m'} (hcond : evaluate rules n cond m = .done c m')
      (htruthy : c.truthy = true) :
      Calls rules n (.repeatWhile cond body) m (.executeOption body) m'
  | whileAgain {cond body m c m' m''} (hcond : evaluate rules n cond m = .done c m')
      (htruthy : c.truthy = true) (hbody : executeOption rules n body m' = .done .normal m'') :
      Calls rules n (.repeatWhile cond body) m (.repeatWhile cond body) m''
  | forCond {cond step body m} :
      Calls rules n (.repeatFor cond step body) m (.evaluateCondition cond) m
  | forBody {cond step body m c m'} (hcond : evaluateCondition rules n cond m = .done c m')
      (htruthy : c.truthy = true) :
      Calls rules n (.repeatFor cond step body) m (.executeOption body) m'
  | forStep {cond step body m c m' m''} (hcond : evaluateCondition rules n cond m = .done c m')
      (htruthy : c.truthy = true) (hbody : executeOption rules n body m' = .done .normal m'') :
      Calls rules n (.repeatFor cond step body) m (.evaluateOption step) m''
  | forAgain {cond step body m c m' m'' v m'''}
      (hcond : evaluateCondition rules n cond m = .done c m') (htruthy : c.truthy = true)
      (hbody : executeOption rules n body m' = .done .normal m'')
      (hstep : evaluateOption rules n step m'' = .done v m''') :
      Calls rules n (.repeatFor cond step body) m (.repeatFor cond step body) m'''
  | someCondition {e m} : Calls rules n (.evaluateCondition (some e)) m (.evaluate e) m

/-- **What is reached from a task** that is run with a bound in a machine. -/
inductive Reaches (rules : Rules) : Nat → Task → Machine → Task → Machine → Prop where
  | here {n t m} : Reaches rules n t m t m
  | call {n t m t' m' t'' m''} (hcall : Calls rules n t m t' m')
      (hrest : Reaches rules n t' m' t'' m'') : Reaches rules (n + 1) t m t'' m''

/-- **What a program reaches** that is run with a bound in a machine: what
its statements reach, each in the machine that the ones before it leave. -/
inductive During (rules : Rules) (bound : Nat) :
    Program Address → Machine → Task → Machine → Prop where
  | first {s rest m t m'} (hreach : Reaches rules bound (.execute s) m t m') :
      During rules bound (s :: rest) m t m'
  | next {s rest m c m₁ t m'} (hdone : execute rules bound s m = .done c m₁)
      (hrest : During rules bound rest m₁ t m') : During rules bound (s :: rest) m t m'

end Eval

end TanLang
