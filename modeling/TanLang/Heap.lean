import TanLang.Native
import TanLang.Scoping
/-!
# The heap — scopes

A running program's scopes form a forest: each has the names bound in it
and, except for the outermost ones, an enclosing scope. Scopes are places
in a heap, so that everyone who holds one sees what the others assign to.

There are two ways to a name. One follows the enclosing scopes until one
binds it; the other goes out a given number of scopes and looks only there.
-/

namespace TanLang

/-- One scope. -/
structure Scope where
  /-- The names bound in it. -/
  values : Table Value := .empty
  /-- The enclosing scope. -/
  outer : Option ScopeId := none
  deriving Inhabited

/-- A function: its declaration, the scope it was declared in, and whether
it sets up instances. -/
structure Function where
  /-- The declaration. -/
  decl : Routine (Stmt Address)
  /-- The scope around the function. -/
  closure : ScopeId
  /-- Whether it is the `init` method of a class. -/
  isInit : Bool := false
  deriving Inhabited

/-- A class. -/
structure Class where
  /-- The name it was declared under. -/
  name : Text
  /-- The class it inherits from. -/
  superclass : Option ClassId := none
  /-- Its own methods. -/
  methods : Table Function := .empty
  deriving Inhabited

/-- An instance of a class. -/
structure Instance where
  /-- The class. -/
  classOf : ClassId
  /-- The fields set on it. -/
  fields : Table Value := .empty
  deriving Inhabited

/-- Everything that values refer to, each kind in the order of creation, and
what the natives keep between calls. -/
structure Heap where
  /-- The scopes. -/
  scopes : Array Scope := #[]
  /-- The functions. -/
  functions : Array Function := #[]
  /-- The natives. -/
  natives : Array Native := #[]
  /-- The classes. -/
  classes : Array Class := #[]
  /-- The instances. -/
  instances : Array Instance := #[]
  /-- What the natives keep. -/
  registry : Registry := {}
  deriving Inhabited

namespace Heap

/-- The scope at a place. -/
def scope? (h : Heap) (s : ScopeId) : Option Scope := h.scopes[s.index]?

/-- A new scope, which encloses nothing yet. -/
def newScope (h : Heap) (outer : Option ScopeId) : Heap × ScopeId :=
  let place := h.scopes.size
  ({ h with scopes := h.scopes.push ⟨.empty, outer⟩ }, ⟨place⟩)

/-- **A name bound in a scope**, whether or not it was bound there before. -/
def define (h : Heap) (s : ScopeId) (name : Text) (value : Value) : Heap :=
  { h with scopes := h.scopes.modify s.index fun scope =>
      { scope with values := scope.values.insert name value } }

/-- The value bound to a name in a scope itself. -/
def boundIn (h : Heap) (s : ScopeId) (name : Text) : Option Value :=
  (h.scope? s).bind fun scope => scope.values.find? name

/-! ## Following the enclosing scopes -/

/-- The first scope from `s` outwards that binds a name, within `steps`
scopes. -/
def holderWithin (h : Heap) (name : Text) : Nat → ScopeId → Option ScopeId
  | 0, _ => none
  | steps + 1, s =>
    match h.scope? s with
    | none => none
    | some scope =>
      if scope.values.contains name then some s
      else
        match scope.outer with
        | none => none
        | some outer => holderWithin h name steps outer

/-- **The innermost scope that binds a name.** There are no more scopes on
the way out than in the heap. -/
def holder (h : Heap) (s : ScopeId) (name : Text) : Option ScopeId :=
  holderWithin h name h.scopes.size s

/-- The value of a name, seen from a scope. -/
def lookup (h : Heap) (s : ScopeId) (name : Text) : Option Value :=
  (h.holder s name).bind fun holder => h.boundIn holder name

/-- **An assignment to a name, seen from a scope**: it changes the innermost
binding there is, and never makes one. -/
def assign (h : Heap) (s : ScopeId) (name : Text) (value : Value) : Option Heap :=
  (h.holder s name).map fun holder => h.define holder name value

/-! ## Going out a number of scopes -/

/-- Where one is after going out so many scopes: a scope, or just outside
the outermost one. There is no going on from outside. -/
def outwards (h : Heap) : Nat → Option ScopeId → Option (Option ScopeId)
  | 0, place => some place
  | _ + 1, none => none
  | n + 1, some s => outwards h n ((h.scope? s).bind Scope.outer)

/-- The scope so many scopes out. -/
def ancestor (h : Heap) (s : ScopeId) (distance : Nat) : Option ScopeId :=
  (h.outwards distance (some s)).join

/-- The value of a name in the scope so many scopes out, `nil` if it is not
bound there; nothing if there is no such scope. -/
def getAt (h : Heap) (s : ScopeId) (distance : Nat) (name : Text) : Option Value :=
  (h.ancestor s distance).map fun scope => (h.boundIn scope name).getD .nil

/-- A name bound in the scope so many scopes out, if there is such a scope. -/
def assignAt (h : Heap) (s : ScopeId) (distance : Nat) (name : Text) (value : Value) :
    Option Heap :=
  (h.ancestor s distance).map fun scope => h.define scope name value

/-- The names bound in a scope and their values, by name. -/
def listing (h : Heap) (s : ScopeId) : List (Text × Value) :=
  match h.scope? s with
  | some scope => scope.values.sorted
  | none => []

end Heap

end TanLang
