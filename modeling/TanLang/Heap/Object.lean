import TanLang.Heap
/-!
# The heap — functions, classes and instances

Calling a function puts the arguments into a new scope inside the one it
was declared in. A method fetched from an instance is a new function whose
scope binds `this` to that instance and nothing else. An instance's fields
hide its methods; methods are looked for in its class and then in the
classes that one inherits from.
-/

namespace TanLang

/-- How a statement finished. -/
inductive Completion where
  /-- It ran to its end. -/
  | normal
  /-- A `return` was met, with this value. -/
  | returning (value : Value)
  deriving DecidableEq, Inhabited

/-- What an instance has under a name. -/
inductive Property where
  /-- A field with this value. -/
  | field (value : Value)
  /-- A method of its class. -/
  | method (f : Function)
  deriving Inhabited

/-- The name that the instance of a method goes by. -/
def thisName : Text := Text.ofString "this"

/-- The name of the method that sets up instances. -/
def initName : Text := Text.ofString "init"

namespace Heap

/-- The function at a place. -/
def function? (h : Heap) (f : FunctionId) : Option Function := h.functions[f.index]?

/-- The native at a place. -/
def native? (h : Heap) (f : NativeId) : Option Native := h.natives[f.index]?

/-- The class at a place. -/
def class? (h : Heap) (c : ClassId) : Option Class := h.classes[c.index]?

/-- The instance at a place. -/
def instance? (h : Heap) (i : InstanceId) : Option Instance := h.instances[i.index]?

/-- A new function. -/
def newFunction (h : Heap) (f : Function) : Heap × FunctionId :=
  let place := h.functions.size
  ({ h with functions := h.functions.push f }, ⟨place⟩)

/-- A new native. -/
def newNative (h : Heap) (f : Native) : Heap × NativeId :=
  let place := h.natives.size
  ({ h with natives := h.natives.push f }, ⟨place⟩)

/-- A new class. -/
def newClass (h : Heap) (c : Class) : Heap × ClassId :=
  let place := h.classes.size
  ({ h with classes := h.classes.push c }, ⟨place⟩)

/-- A new instance of a class, without fields. -/
def newInstance (h : Heap) (c : ClassId) : Heap × InstanceId :=
  let place := h.instances.size
  ({ h with instances := h.instances.push ⟨c, .empty⟩ }, ⟨place⟩)

/-! ## Methods -/

/-- A method of a class or of one it inherits from, within `steps` classes. -/
def methodWithin (h : Heap) (name : Text) : Nat → ClassId → Option Function
  | 0, _ => none
  | steps + 1, c =>
    match h.class? c with
    | none => none
    | some cls =>
      match cls.methods.find? name with
      | some method => some method
      | none =>
        match cls.superclass with
        | none => none
        | some superclass => methodWithin h name steps superclass

/-- **The method that a class has under a name**: its own, or else the
nearest inherited one. -/
def method? (h : Heap) (c : ClassId) (name : Text) : Option Function :=
  methodWithin h name h.classes.size c

/-- A method bound to an instance: the same function, in a new scope that
binds `this`. -/
def bind (h : Heap) (f : Function) (i : InstanceId) : Heap × Function :=
  let (h, scope) := h.newScope (some f.closure)
  (h.define scope thisName (.instanceRef i), { f with closure := scope })

/-- **What an instance has under a name**: the field of that name, or else
the method. -/
def property? (h : Heap) (i : InstanceId) (name : Text) : Option Property :=
  match h.instance? i with
  | none => none
  | some inst =>
    match inst.fields.find? name with
    | some value => some (.field value)
    | none => (h.method? inst.classOf name).map .method

/-- The value of a property: that of a field, and a method newly bound. -/
def fetch (h : Heap) (i : InstanceId) : Property → Heap × Value
  | .field value => (h, value)
  | .method method =>
    let (h, bound) := h.bind method i
    let (h, f) := h.newFunction bound
    (h, .function f)

/-- A field set on an instance. -/
def setField (h : Heap) (i : InstanceId) (name : Text) (value : Value) : Heap :=
  { h with instances := h.instances.modify i.index fun inst =>
      { inst with fields := inst.fields.insert name value } }

/-! ## Calls -/

/-- How many arguments a class takes: as many as its `init` method. -/
def classArity (h : Heap) (c : ClassId) : Nat :=
  match h.method? c initName with
  | some method => method.decl.params.length
  | none => 0

/-- How many arguments a value takes; none if it cannot be called. -/
def arity? (h : Heap) : Value → Option Nat
  | .function f => (h.function? f).map fun f => f.decl.params.length
  | .native f => (h.native? f).map Native.arity
  | .classRef c => some (h.classArity c)
  | _ => none

/-- Arguments put into a scope under the names of the parameters, as far as
there are both. -/
def defineAll (h : Heap) (s : ScopeId) : List Token → List Value → Heap
  | param :: params, arg :: args => defineAll (h.define s param.lexeme arg) s params args
  | _, _ => h

/-- **The scope of a call**: new, inside the function's own, with the
arguments in it. -/
def enter (h : Heap) (f : Function) (args : List Value) : Heap × ScopeId :=
  let (h, scope) := h.newScope (some f.closure)
  (h.defineAll scope f.decl.params args, scope)

/-- **What a call answers with** once its body has finished: the instance if
the function sets one up, and else the value returned, if any. -/
def answer (h : Heap) (f : Function) (c : Completion) : Value :=
  if f.isInit then (h.boundIn f.closure thisName).getD .nil
  else
    match c with
    | .returning value => value
    | .normal => .nil

/-! ## Printing -/

/-- The text that a value prints as. -/
def text (h : Heap) : Value → Text
  | .nil => Text.ofString "nil"
  | .bool b => Text.ofString (if b then "true" else "false")
  | .number x => Decimal.write Decimal.positional x
  | .string s => s
  | .function f => Text.ofString "<fn " ++ functionName f ++ Text.ofString ">"
  | .native f => Text.ofString "<native fn " ++ nativeName f ++ Text.ofString ">"
  | .classRef c => Text.ofString "<class " ++ className c ++ Text.ofString ">"
  | .instanceRef i =>
    Text.ofString "<instance of class " ++ instanceClassName i ++ Text.ofString ">"
where
  /-- The name a function was declared under. -/
  functionName (f : FunctionId) : Text :=
    ((h.function? f).map fun f => f.decl.name.lexeme).getD []
  /-- The name of a native. -/
  nativeName (f : NativeId) : Text := ((h.native? f).map Native.name).getD []
  /-- The name of a class. -/
  className (c : ClassId) : Text := ((h.class? c).map Class.name).getD []
  /-- The name of an instance's class. -/
  instanceClassName (i : InstanceId) : Text :=
    ((h.instance? i).map fun i => className i.classOf).getD []

/-- A value as a native sees it. -/
def argument (h : Heap) (v : Value) : Argument := ⟨v, h.text v⟩

/-- The heap with another registry. -/
def keep (h : Heap) (r : Registry) : Heap := { h with registry := r }

end Heap

end TanLang
