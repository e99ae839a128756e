import TanLang.Fault
import TanLang.Heap.Object
/-!
# The machine — the state of a running program

The machine is the heap, the scope that is active, the number of calls
that are open, and what was printed. An action of the machine answers with
a value or with a runtime error, and either way with the machine as it is
then: what was printed or assigned before an error stays.

Two more answers stand for no outcome of the program. An action `crashed`
if it needed a scope or an argument that is not there, and it is
`exhausted` if the bound on its recursion ran out.
-/

namespace TanLang

/-- How a use of a name finds its binding. -/
inductive Addressing where
  /-- By its distance, and in the globals if it has none. -/
  | distance
  /-- By following the enclosing scopes, whatever its distance. -/
  | chain
  deriving DecidableEq, Inhabited

/-- What stays the same while a program runs. -/
structure Rules where
  /-- The limit on nested calls. -/
  maxDepth : Nat
  /-- The clock. -/
  clock : Clock := ⟨0, 0⟩
  /-- How names are found. -/
  addressing : Addressing := .distance
  deriving Inhabited

/-- Where a use of a name takes place. -/
inductive Place where
  /-- In a scope. -/
  | scope (s : ScopeId)
  /-- Nowhere, for no scope binds the name. -/
  | unbound
  /-- Outside of all scopes. -/
  | outside
  deriving DecidableEq, Inhabited

/-- The state of a running program. -/
structure Machine where
  /-- The heap. -/
  heap : Heap
  /-- The active scope. -/
  active : ScopeId
  /-- How many calls are open. -/
  depth : Nat := 0
  /-- The lines printed so far, the last one first. -/
  printed : List Text := []
  deriving Inhabited

namespace Machine

/-- The scope of the globals, which is the first one made. -/
def globals : ScopeId := ⟨0⟩

/-- Natives bound under their names in the globals. -/
def install (h : Heap) (natives : List Native) : Heap :=
  natives.foldl
    (fun h native =>
      let (h, f) := h.newNative native
      h.define globals native.name (.native f))
    h

/-- The machine before any program has run: the globals hold the natives
given. -/
def start (natives : List Native) : Machine :=
  ⟨install (Heap.newScope {} none).1 natives, globals, 0, []⟩

/-- Where a use of a name takes place. By its distance it is a scope, whether
that binds the name or not; otherwise it is the innermost scope that does,
from the active one or from the globals on. -/
def place (m : Machine) (rules : Rules) (name : Text) (address : Address) : Place :=
  match rules.addressing, address with
  | .chain, _ => held m.active
  | .distance, none => held globals
  | .distance, some d =>
    match m.heap.ancestor m.active d with
    | some s => .scope s
    | none => .outside
where
  /-- The scope that holds the name, seen from a scope. -/
  held (s : ScopeId) : Place :=
    match m.heap.holder s name with
    | some s => .scope s
    | none => .unbound

/-- The world as a native finds it that is called now. -/
def world (m : Machine) (rules : Rules) : World := ⟨rules.clock, m.heap.registry⟩

/-- The machine with another registry. -/
def keep (m : Machine) (r : Registry) : Machine := { m with heap := m.heap.keep r }

/-- The text printed so far. -/
def output (m : Machine) : Text := m.printed.reverse.flatMap fun line => line ++ [Text.newline]

end Machine

/-- What an action of the machine answers. -/
inductive Outcome (α : Type) where
  /-- A value. -/
  | done (value : α) (m : Machine)
  /-- A runtime error. -/
  | raised (error : RuntimeError) (m : Machine)
  /-- Something that had to be there is missing. -/
  | crashed (m : Machine)
  /-- The bound on the recursion ran out. -/
  | exhausted (m : Machine)

namespace Outcome

variable {α : Type}

/-- The machine at the end, however it came to it. -/
def machine : Outcome α → Machine
  | done _ m => m
  | raised _ m => m
  | crashed m => m
  | exhausted m => m

/-- The outcome with its machine changed. -/
@[always_inline, inline]
def mapMachine (f : Machine → Machine) : Outcome α → Outcome α
  | done value m => .done value (f m)
  | raised error m => .raised error (f m)
  | crashed m => .crashed (f m)
  | exhausted m => .exhausted (f m)

end Outcome

/-- An action of the machine. -/
def Action (α : Type) : Type := Machine → Outcome α

namespace Action

variable {α β : Type}

/-- The action that does nothing. -/
@[always_inline, inline]
def result (a : α) : Action α := fun m => .done a m

/-- One action after another; nothing comes after an error. -/
@[always_inline, inline]
def andThen (x : Action α) (f : α → Action β) : Action β := fun m =>
  match x m with
  | .done a m => f a m
  | .raised error m => .raised error m
  | .crashed m => .crashed m
  | .exhausted m => .exhausted m

@[always_inline]
instance : Monad Action where
  pure := result
  bind := andThen

/-- The action whose bound has run out. -/
def stop : Action α := fun m => .exhausted m

/-- A runtime error. -/
def raise (token : Token) (fault : Fault) : Action α := fun m => .raised ⟨fault, token⟩ m

/-- A value, or the fault that takes its place. -/
def liftFault (token : Token) : Except Fault α → Action α
  | .ok a => result a
  | .error fault => raise token fault

/-- A line printed. -/
def print (v : Value) : Action Unit := fun m =>
  .done () { m with printed := m.heap.text v :: m.printed }

/-- A name bound in the active scope. -/
def define (name : Text) (v : Value) : Action Unit := fun m =>
  .done () { m with heap := m.heap.define m.active name v }

/-- **An action in another scope.** However it ends, the scope that was
active before is active again. -/
@[inline]
def inScope (s : ScopeId) (x : Action α) : Action α := fun m =>
  let before := m.active
  (x { m with active := s }).mapMachine fun m => { m with active := before }

/-- An action in a new scope inside the active one. -/
@[inline]
def inNewScope (x : Action α) : Action α := fun m =>
  let (heap, s) := m.heap.newScope (some m.active)
  inScope s x { m with heap := heap }

/-- **An action counted as an open call.** However it ends, the count is
taken back. -/
@[inline]
def counted (x : Action α) : Action α := fun m =>
  (x { m with depth := m.depth + 1 }).mapMachine fun m => { m with depth := m.depth - 1 }

/-- The value of a name. -/
def read (rules : Rules) (name : Token) (address : Address) : Action Value := fun m =>
  match m.place rules name.lexeme address with
  | .scope s => .done ((m.heap.boundIn s name.lexeme).getD .nil) m
  | .unbound => .raised ⟨.undefinedVariable name.lexeme, name⟩ m
  | .outside => .crashed m

/-- An assignment to a name. -/
def write (rules : Rules) (name : Token) (address : Address) (v : Value) : Action Unit :=
  fun m =>
    match m.place rules name.lexeme address with
    | .scope s => .done () { m with heap := m.heap.define s name.lexeme v }
    | .unbound => .raised ⟨.undefinedVariable name.lexeme, name⟩ m
    | .outside => .crashed m

end Action

end TanLang
