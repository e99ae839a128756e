import TanLang.Machine
import TanLang.Proofs.Lines
/-!
# The heap — the same code on other lines

The code of functions and methods is all that a heap has of a program's
lines. Moved to other lines, it has the same scopes, the same instances and
the same natives, and its functions and classes have the same names, the
same parameters and the same methods. So every operation on a heap can be
done before or after the move, and **a value prints the same in both**.
-/

namespace TanLang

/-- The table with its values changed. -/
def Table.map {α β : Type} (change : α → β) (t : Table α) : Table β :=
  ⟨t.entries.map fun e => (e.1, change e.2)⟩

theorem Table.find?_map {α β : Type} (change : α → β) (t : Table α) (name : Text) :
    (t.map change).find? name = (t.find? name).map change := by
  obtain ⟨entries⟩ := t
  simp only [Table.map, Table.find?]
  induction entries with
  | nil => rfl
  | cons e rest ih =>
    by_cases he : e.1 = name
    · simp [Table.findIn, he]
    · simp [Table.findIn, he, ih]

theorem Table.map_insert {α β : Type} (change : α → β) (t : Table α) (name : Text) (v : α) :
    (t.insert name v).map change = (t.map change).insert name (change v) := by
  obtain ⟨entries⟩ := t
  have hput : (Table.putIn name v entries).map (fun e => (e.1, change e.2)) =
      Table.putIn name (change v) (entries.map fun e => (e.1, change e.2)) := by
    induction entries with
    | nil => rfl
    | cons e rest ih =>
      by_cases he : e.1 = name
      · simp [Table.putIn, he]
      · simp [Table.putIn, he, ih]
  simp only [Table.map, Table.insert, hput]

variable (f : Int → Int)

/-- The function with its code on other lines. -/
def Function.reline (fn : Function) : Function := { fn with decl := Stmt.relineRoutine f fn.decl }

/-- The class with the code of its methods on other lines. -/
def Class.reline (c : Class) : Class := { c with methods := c.methods.map (Function.reline f) }

/-- The property with its code on other lines. -/
def Property.reline : Property → Property
  | .field v => .field v
  | .method fn => .method (fn.reline f)

/-- The heap with its code on other lines. -/
def Heap.reline (h : Heap) : Heap :=
  { h with
    functions := h.functions.map (Function.reline f)
    classes := h.classes.map (Class.reline f) }

namespace Function

variable (fn : Function)

@[simp]
theorem reline_name : (fn.reline f).decl.name = fn.decl.name.reline f :=
  Stmt.name_relineRoutine f fn.decl

@[simp]
theorem reline_params : (fn.reline f).decl.params = fn.decl.params.map (Token.reline f) := by
  unfold reline
  rw [Stmt.relineRoutine_eq]

@[simp]
theorem reline_body : (fn.reline f).decl.body = Stmt.relineAll f fn.decl.body := by
  unfold reline
  rw [Stmt.relineRoutine_eq]

@[simp]
theorem reline_closure : (fn.reline f).closure = fn.closure := rfl

@[simp]
theorem reline_isInit : (fn.reline f).isInit = fn.isInit := rfl

end Function

namespace Heap

variable (h : Heap)

/-! ## Scopes -/

@[simp]
theorem scope?_reline (s : ScopeId) : (h.reline f).scope? s = h.scope? s := rfl

@[simp]
theorem boundIn_reline (s : ScopeId) (x : Text) : (h.reline f).boundIn s x = h.boundIn s x := rfl

@[simp]
theorem define_reline (s : ScopeId) (x : Text) (v : Value) :
    (h.reline f).define s x v = (h.define s x v).reline f := rfl

@[simp]
theorem newScope_reline (outer : Option ScopeId) :
    (h.reline f).newScope outer = ((h.newScope outer).1.reline f, (h.newScope outer).2) := rfl

@[simp]
theorem listing_reline (s : ScopeId) : (h.reline f).listing s = h.listing s := rfl

@[simp]
theorem holder_reline (s : ScopeId) (x : Text) : (h.reline f).holder s x = h.holder s x := by
  have hwithin : ∀ steps s, (h.reline f).holderWithin x steps s = h.holderWithin x steps s := by
    intro steps
    induction steps with
    | zero => exact fun _ => rfl
    | succ steps ih =>
      intro s
      simp only [holderWithin, scope?_reline, ih]
  exact hwithin _ _

@[simp]
theorem ancestor_reline (s : ScopeId) (d : Nat) :
    (h.reline f).ancestor s d = h.ancestor s d := by
  have houtwards : ∀ d place, (h.reline f).outwards d place = h.outwards d place := by
    intro d
    induction d with
    | zero => exact fun _ => rfl
    | succ d ih =>
      intro place
      cases place with
      | none => rfl
      | some s => simp only [outwards, scope?_reline, ih]
  simp only [ancestor, houtwards]

/-! ## Functions, classes and instances -/

@[simp]
theorem function?_reline (i : FunctionId) :
    (h.reline f).function? i = (h.function? i).map (Function.reline f) := by
  simp only [function?, reline, Array.getElem?_map]

@[simp]
theorem native?_reline (i : NativeId) : (h.reline f).native? i = h.native? i := rfl

@[simp]
theorem class?_reline (c : ClassId) :
    (h.reline f).class? c = (h.class? c).map (Class.reline f) := by
  simp only [class?, reline, Array.getElem?_map]

@[simp]
theorem instance?_reline (i : InstanceId) : (h.reline f).instance? i = h.instance? i := rfl

@[simp]
theorem newFunction_reline (fn : Function) : (h.reline f).newFunction (fn.reline f) =
    ((h.newFunction fn).1.reline f, (h.newFunction fn).2) := by
  simp only [newFunction, reline, Array.map_push, Array.size_map]

@[simp]
theorem newClass_reline (c : Class) : (h.reline f).newClass (c.reline f) =
    ((h.newClass c).1.reline f, (h.newClass c).2) := by
  simp only [newClass, reline, Array.map_push, Array.size_map]

@[simp]
theorem newInstance_reline (c : ClassId) : (h.reline f).newInstance c =
    ((h.newInstance c).1.reline f, (h.newInstance c).2) := rfl

@[simp]
theorem setField_reline (i : InstanceId) (x : Text) (v : Value) :
    (h.reline f).setField i x v = (h.setField i x v).reline f := rfl

@[simp]
theorem method?_reline (c : ClassId) (x : Text) :
    (h.reline f).method? c x = (h.method? c x).map (Function.reline f) := by
  -- the search goes by names and superclasses, which have no lines
  have hwithin : ∀ steps c, (h.reline f).methodWithin x steps c =
      (h.methodWithin x steps c).map (Function.reline f) := by
    intro steps
    induction steps with
    | zero => exact fun _ => rfl
    | succ steps ih =>
      intro c
      simp only [methodWithin, class?_reline]
      cases h.class? c with
      | none => rfl
      | some cls =>
        simp only [Option.map_some, Class.reline, Table.find?_map]
        cases cls.methods.find? x with
        | some method => rfl
        | none =>
          cases cls.superclass with
          | none => rfl
          | some superclass => exact ih superclass
  have hsize : (h.reline f).classes.size = h.classes.size := by
    simp only [reline, Array.size_map]
  rw [method?, method?, hsize, hwithin]

@[simp]
theorem bind_reline (fn : Function) (i : InstanceId) : (h.reline f).bind (fn.reline f) i =
    ((h.bind fn i).1.reline f, (h.bind fn i).2.reline f) := rfl

@[simp]
theorem property?_reline (i : InstanceId) (x : Text) :
    (h.reline f).property? i x = (h.property? i x).map (Property.reline f) := by
  simp only [property?, instance?_reline, method?_reline]
  cases h.instance? i with
  | none => rfl
  | some inst =>
    simp only
    cases inst.fields.find? x with
    | some v => rfl
    | none => cases h.method? inst.classOf x <;> rfl

@[simp]
theorem fetch_reline (i : InstanceId) (p : Property) : (h.reline f).fetch i (p.reline f) =
    ((h.fetch i p).1.reline f, (h.fetch i p).2) := by
  cases p with
  | field v => rfl
  | method fn => simp only [fetch, Property.reline, bind_reline, newFunction_reline]

/-! ## Calls -/

@[simp]
theorem arity?_reline (v : Value) : (h.reline f).arity? v = h.arity? v := by
  cases v with
  | function i =>
    simp only [arity?, function?_reline]
    cases h.function? i with
    | none => rfl
    | some fn => simp
  | classRef c =>
    simp only [arity?, classArity, method?_reline]
    cases h.method? c initName with
    | none => rfl
    | some fn => simp
  | _ => rfl

theorem defineAll_reline (s : ScopeId) (params : List Token) (args : List Value) :
    (h.reline f).defineAll s (params.map (Token.reline f)) args =
      (h.defineAll s params args).reline f := by
  induction params generalizing h args with
  | nil => rfl
  | cons p params ih =>
    cases args with
    | nil => rfl
    | cons arg args => exact ih (h.define s p.lexeme arg) args

@[simp]
theorem enter_reline (fn : Function) (args : List Value) :
    (h.reline f).enter (fn.reline f) args =
      ((h.enter fn args).1.reline f, (h.enter fn args).2) := by
  simp only [enter, newScope_reline, Function.reline_params, Function.reline_closure,
    defineAll_reline]

@[simp]
theorem answer_reline (fn : Function) (c : Completion) :
    (h.reline f).answer (fn.reline f) c = h.answer fn c := rfl

/-- **A value prints the same** with the code on other lines. -/
@[simp]
theorem text_reline (v : Value) : (h.reline f).text v = h.text v := by
  have hclass : ∀ c, text.className (h.reline f) c = text.className h c := by
    intro c
    simp only [text.className, class?_reline, Option.map_map]
    rfl
  cases v with
  | function i =>
    simp only [text, text.functionName, function?_reline, Option.map_map]
    cases h.function? i with
    | none => rfl
    | some fn => simp
  | classRef c => simp only [text, hclass]
  | instanceRef i => simp only [text, text.instanceClassName, instance?_reline, hclass]
  | _ => rfl

@[simp]
theorem argument_reline (v : Value) : (h.reline f).argument v = h.argument v := by
  simp only [argument, text_reline]

end Heap

end TanLang
