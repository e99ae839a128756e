import TanLang.Proofs.Evaluation.Changes
import TanLang.Proofs.Heap.Properties
/-!
# Evaluation — properties, whatever code runs in between

To the heap a run is a course: the settings on the way are those of the
assignments to fields that it reaches. So **a call of a class that does not set
a field leaves the property as it is**, on whatever instance, and the methods
of every class. A method that is fetched is a new function, which runs the code
of the nearest method with `this` bound to the instance, right inside the scope
the method was declared in.
-/

namespace TanLang

namespace Eval

variable {α : Type} {rules : Rules} {n : Nat} {t : Task} {m m' : Machine} {P : Setting → Prop}

/-! ## The settings of a run -/

/-- **A setting is made on the way from a task**: the task reaches an
assignment to a field, whose object comes to the instance and whose value is
the one that the field is given. -/
def SetsDuring (rules : Rules) (n : Nat) (t : Task) (m : Machine) (e : Setting) : Prop :=
  ∃ object name value m' k m₁ m₂, Reaches rules n t m (.evaluate (.set object name value)) m' ∧
    evaluate rules k object m' = .done (.instanceRef e.target) m₁ ∧
    evaluate rules k value m₁ = .done e.value m₂ ∧ name.lexeme = e.name

/-- A heap comes from another by a course with only settings of a kind. -/
def Courses (P : Setting → Prop) (h h' : Heap) : Prop := ∃ log, h.Course log h' ∧ ∀ e ∈ log, P e

theorem Courses.refl (h : Heap) : Courses P h h := ⟨[], .start, nofun⟩

theorem Courses.trans {h h' h'' : Heap} (first : Courses P h h') (second : Courses P h' h'') :
    Courses P h h'' := by
  obtain ⟨log, hlog, hP⟩ := first
  obtain ⟨more, hmore, hP'⟩ := second
  exact ⟨log ++ more, hlog.trans hmore, fun e he => (List.mem_append.1 he).elim (hP e) (hP' e)⟩

/-- Scopes, functions, new classes and what natives keep are no matter of
instances. -/
theorem Courses.aside {h h' : Heap} (hinstances : h'.instances = h.instances)
    (hclasses : h.ClassesLast h') : Courses P h h' :=
  ⟨[], .aside .start hinstances hclasses, nofun⟩

theorem courses_instantiate {c : ClassId} :
    Courses P m.heap (instantiate c m).machine.heap := by
  have hnew : m.heap.Course [] (m.heap.newInstance c).1 := .instantiate .start c
  rw [instantiate_eq]
  split
  · exact ⟨[], hnew, nofun⟩
  · exact ⟨[], hnew.aside rfl (.of_eq rfl), nofun⟩

theorem courses_readProperty {i : InstanceId} {name : Token} :
    Courses P m.heap (readProperty i name m).machine.heap := by
  unfold readProperty
  split
  · exact .refl _
  · exact ⟨[], .get .start ‹_›, nofun⟩

theorem courses_writeField {i : InstanceId} {name : Token} {v : Value}
    (hP : P ⟨i, name.lexeme, v⟩) : Courses P m.heap (writeField i name v m).machine.heap := by
  cases hi : (m.heap.instance? i).isSome with
  | true =>
    refine ⟨[⟨i, name.lexeme, v⟩], .set .start hi _ _, fun e he => ?_⟩
    rwa [List.mem_singleton.1 he]
  | false =>
    -- there is no such instance, so nothing is set
    refine .aside (Array.ext_getElem? fun j => ?_) (.of_eq rfl)
    have hsame := m.heap.instance?_setField i ⟨j⟩ name.lexeme v
    rw [Option.isSome_eq_false_iff, Option.isNone_iff_eq_none] at hi
    rw [hi, Option.map_none] at hsame
    refine hsame.trans ?_
    split
    · rename_i hij
      rw [← hij] at hi
      exact hi.symm
    · rfl

theorem courses_write {name : Token} {address : Address} {v : Value} :
    Courses P m.heap (Action.write rules name address v m).machine.heap := by
  unfold Action.write
  split
  · exact .aside rfl (.of_eq rfl)
  · exact .refl _
  · exact .refl _

theorem courses_declareClass {name : Token} {superclass : Option ClassId}
    {methods : List (Routine (Stmt Address))} :
    Courses P m.heap (declareClass name superclass methods m).machine.heap := by
  have hclasses : m.heap.ClassesLast ((m.heap.define m.active name.lexeme .nil).newClass
      ⟨name.lexeme, superclass, methodTable m.active methods⟩).1 :=
    (Heap.Lasts.newClass (m.heap.define m.active name.lexeme .nil) _).classes
  unfold declareClass
  simp only
  split
  · exact .aside rfl hclasses
  · exact .aside rfl hclasses

/-- **What a task does itself is a course**, and what it sets is a setting on
the way from it. -/
theorem Acts.courses {x : Action α} (hacts : Acts rules n t m m' x)
    (hP : ∀ e, SetsDuring rules (n + 1) t m e → P e) :
    Courses P m'.heap (x m').machine.heap := by
  -- most actions leave the machine alone
  have hstill : ∀ {β : Type} {y : Action β}, (y m').machine = m' →
      Courses P m'.heap (y m').machine.heap := by
    intro β y hsame
    rw [hsame]
    exact .refl _
  cases hacts with
  | prefixed _ | combine _ _ => exact hstill (machine_liftFault _ _ _)
  | object _ | target _ => exact hstill (machine_expectInstance _ _ _ _)
  | checkCall => exact hstill (machine_checkCall _ _ _ _)
  | checkDepth _ => exact hstill (machine_checkDepth _ _ _)
  | fetch => exact hstill (machine_fetchFunction _ _)
  | native =>
    obtain ⟨r, hkept⟩ := machine_callNative _ _ _ _ _
    rw [hkept]
    exact .aside rfl (.of_eq rfl)
  | read => exact hstill (machine_read _ _ _ _)
  | property _ _ => exact courses_readProperty
  | @field object name value _ o m₁ i m₂ v _ hobject hinstance hvalue =>
    obtain ⟨rfl, rfl⟩ := expectInstance_done hinstance
    exact courses_writeField (hP ⟨i, name.lexeme, v⟩
      ⟨object, name, value, m, n, m₂, m', .here, hobject, hvalue, rfl⟩)
  | instantiate => exact courses_instantiate
  | @enter f args =>
    unfold enterCall
    split
    · exact .refl _
    · show Courses P m.heap (m.heap.enter f args).1
      obtain ⟨scopes, hscopes⟩ := defineAll_heap (m.heap.newScope (some f.closure)).2
        f.decl.params args (m.heap.newScope (some f.closure)).1
      have hentered : (m.heap.enter f args).1 = { m.heap with scopes := scopes } := hscopes
      refine .aside ?_ (.of_eq ?_)
      · rw [hentered]
      · rw [hentered]
  | define _ | declareFunction => exact .aside rfl (.of_eq rfl)
  | declareClass _ => exact courses_declareClass
  | write => exact courses_write
  | notCallable | print _ | notClass _ | leave => exact .refl _

/-- **Every task is a course**, by way of every moment it comes to. -/
theorem courses_upholds (rules : Rules) (P : Setting → Prop) :
    Upholds rules (fun n t m => ∀ e, SetsDuring rules n t m e → P e) (Courses P) where
  refl := .refl
  trans := .trans
  opens _ := .aside rfl (.of_eq rfl)
  calls hsets hcall _ := by
    rintro e ⟨object, name, value, m', k, m₁, m₂, hreach, hrest⟩
    exact hsets e ⟨object, name, value, m', k, m₁, m₂, .call hcall hreach, hrest⟩
  acts hsets hacts _ := hacts.courses hsets
  ends := by
    intro t m _
    cases t with
    | write name address v => exact courses_write
    | read name address =>
      show Courses P m.heap (Action.read rules name address m).machine.heap
      rw [machine_read]
      exact .refl _
    | _ => exact .refl _

/-- **The heap after a task is the one before it after a course**, whose
settings are made on the way from the task. -/
theorem Task.course (rules : Rules) (n : Nat) (t : Task) (m : Machine) :
    ∃ log, m.heap.Course log (t.run rules n m).machine.heap ∧
      ∀ e ∈ log, SetsDuring rules n t m e :=
  (courses_upholds rules (SetsDuring rules n t m)).run fun _ he => he

/-! ## The laws of properties -/

section

variable {h h' : Heap} {log : List Setting} {i : InstanceId} {c : ClassId} {x : Text}

/-- **What an instance of a class has under a name** at the end of a course
that starts from a heap. -/
structure PropertyLaws (h : Heap) (log : List Setting) (h' : Heap) (i : InstanceId) (c : ClassId)
    (x : Text) : Prop where
  /-- The value set last. -/
  set : ∀ v, LastSet log i x v → ∀ (name : Token) (m : Machine), m.heap = h' → name.lexeme = x →
    readProperty i name m = .done v m
  /-- A field that was there before, if it was not set again. -/
  before : ∀ v, Untouched log i x → h.field? i x = some v → ∀ (name : Token) (m : Machine),
    m.heap = h' → name.lexeme = x → readProperty i name m = .done v m
  /-- Else a new function, which is the nearest method in a new scope that
  binds `this` to the instance, right inside the one of the method. -/
  method : ∀ f, Untouched log i x → h.field? i x = none → h.Inherits x c f →
    ∀ (name : Token) (m : Machine), m.heap = h' → name.lexeme = x →
      ∃ g s m', readProperty i name m = .done (.function g) m' ∧
        h'.function? g = none ∧ m'.heap.function? g = some ⟨f.decl, s, f.isInit⟩ ∧
        h'.scope? s = none ∧ m'.heap.scope? s = some ⟨receiverTable i, some f.closure⟩
  /-- Else nothing. -/
  missing : Untouched log i x → h.field? i x = none → (∀ f, ¬ h.Inherits x c f) →
    ∀ (name : Token) (m : Machine), m.heap = h' → name.lexeme = x →
      readProperty i name m = .raised ⟨.undefinedProperty x, name⟩ m
  /-- No course that does not set it makes a difference. -/
  kept : ∀ more h'', h'.Course more h'' → Untouched more i x → h''.property? i x = h'.property? i x
  /-- Nor does any code that does not set it, class calls included. -/
  undisturbed : ∀ (rules : Rules) (n : Nat) (t : Task) (m : Machine), m.heap = h' →
    (∀ e, SetsDuring rules n t m e → ¬ e.Of i x) →
    (t.run rules n m).machine.heap.property? i x = h'.property? i x

/-- **What becomes of a class** in a course that starts from a heap. -/
structure ClassLaws (h h' : Heap) (c : ClassId) : Prop where
  /-- It has the methods of the nearest classes. -/
  methods : ∀ x f, h'.method? c x = some f ↔ h.Inherits x c f
  /-- No course makes a difference to the class or its methods. -/
  kept : ∀ more h'', h'.Course more h'' →
    h''.class? c = h'.class? c ∧ ∀ x, h''.method? c x = h'.method? c x
  /-- Nor does any code. -/
  undisturbed : ∀ (rules : Rules) (n : Nat) (t : Task) (m : Machine), m.heap = h' →
    (t.run rules n m).machine.heap.class? c = h'.class? c ∧
      ∀ x, (t.run rules n m).machine.heap.method? c x = h'.method? c x
  /-- A call of it runs the nearest `init`, bound to a new instance, and takes
  as many arguments as that has parameters. -/
  initialised : ∀ f, h.Inherits initName c f → ∀ rules n paren args m, m.heap = h' →
    ∃ i init m', h'.instance? i = none ∧
      Calls rules n (.invoke paren (.classRef c) args) m (.runFunction init args) m' ∧
      init.decl = f.decl ∧ init.isInit = f.isInit ∧
      m'.heap.scope? init.closure = some ⟨receiverTable i, some f.closure⟩ ∧
      h'.arity? (.classRef c) = some init.decl.params.length
  /-- It runs nothing else. -/
  arity : ∀ rules n paren args m t m', m.heap = h' →
    Calls rules n (.invoke paren (.classRef c) args) m t m' →
      ∃ init, t = .runFunction init args ∧
        h'.arity? (.classRef c) = some init.decl.params.length
  /-- Without an `init`, it takes no arguments and runs nothing. -/
  uninitialised : (∀ f, ¬ h.Inherits initName c f) → h'.arity? (.classRef c) = some 0 ∧
    ∀ rules n paren args m t m', m.heap = h' →
      ¬ Calls rules n (.invoke paren (.classRef c) args) m t m'

/-- A field is read as it is. -/
theorem readProperty_field {name : Token} {v : Value}
    (hp : m.heap.property? i name.lexeme = some (.field v)) :
    readProperty i name m = .done v m := by
  simp only [readProperty, hp, Heap.fetch]

/-- **A method is read as a new function**, whose scope is new as well. -/
theorem readProperty_method {name : Token} {f : Function}
    (hp : m.heap.property? i name.lexeme = some (.method f)) :
    ∃ g s m', readProperty i name m = .done (.function g) m' ∧
      m.heap.function? g = none ∧ m'.heap.function? g = some ⟨f.decl, s, f.isInit⟩ ∧
      m.heap.scope? s = none ∧ m'.heap.scope? s = some ⟨receiverTable i, some f.closure⟩ := by
  let bound := m.heap.bind f i
  let made := bound.1.newFunction bound.2
  refine ⟨made.2, bound.2.closure, { m with heap := made.1 }, ?_, ?_, ?_, ?_, ?_⟩
  · simp only [readProperty, hp]
    rfl
  · exact Array.getElem?_eq_none (Nat.le_refl m.heap.functions.size)
  · show made.1.functions[made.2.index]? = some bound.2
    exact Array.getElem?_push_size
  · exact Array.getElem?_eq_none (Nat.le_refl m.heap.scopes.size)
  · exact (m.heap.scope?_bind f i _).trans (if_pos rfl)

/-- **The laws of properties** hold of every instance whose class is in the
hierarchy. -/
theorem propertyLaws (hier : h.Hierarchy) (hh : h.Course log h') {inst : Instance}
    (hi : h'.instance? i = some inst) (hc : (h.class? inst.classOf).isSome = true) (x : Text) :
    PropertyLaws h log h' i inst.classOf x := by
  have hkept : ∀ more h'', h'.Course more h'' → Untouched more i x →
      h''.property? i x = h'.property? i x := by
    intro more h'' hmore hfree
    obtain ⟨inst', hi', hclass⟩ := hmore.classOf hi
    rw [Heap.property?_eq hi, Heap.property?_eq hi', hmore.field?_of_untouched hfree, hclass,
      hier.method?_eq (hh.trans hmore).classesLast hc, hier.method?_eq hh.classesLast hc]
  have hfield : ∀ v, h'.field? i x = some v → ∀ (name : Token) (m : Machine), m.heap = h' →
      name.lexeme = x → readProperty i name m = .done v m := by
    rintro v hv name m rfl rfl
    refine readProperty_field ?_
    rw [Heap.property?_eq hi, hv]
  constructor
  case set => exact fun v hlast => hfield v (hh.field?_of_lastSet hlast)
  case before =>
    intro v hfree hv
    exact hfield v ((hh.field?_of_untouched hfree).trans hv)
  case method =>
    rintro f hfree hnone hf name m rfl rfl
    refine readProperty_method ?_
    rw [Heap.property?_eq hi, hh.field?_of_untouched hfree, hnone,
      (hier.method?_eq_some_iff hh.classesLast hc).2 hf]
    rfl
  case missing =>
    rintro hfree hnone hmissing name m rfl rfl
    have hmethod : m.heap.method? inst.classOf name.lexeme = none :=
      Option.eq_none_iff_forall_ne_some.2 fun f hf =>
        hmissing f ((hier.method?_eq_some_iff hh.classesLast hc).1 hf)
    have hp : m.heap.property? i name.lexeme = none := by
      rw [Heap.property?_eq hi, hh.field?_of_untouched hfree, hnone, hmethod]
      rfl
    simp only [readProperty, hp]
  case kept => exact hkept
  case undisturbed =>
    rintro rules n t m rfl hsets
    obtain ⟨more, hcourse, hmade⟩ := t.course rules n m
    exact hkept more _ hcourse fun e he => hsets e (hmade e he)

/-- **The laws of classes** hold of every class of the hierarchy. -/
theorem classLaws (hier : h.Hierarchy) (hh : h.Course log h') (hc : (h.class? c).isSome = true) :
    ClassLaws h h' c := by
  have hmethod : ∀ {x f} {k : Heap}, h.ClassesLast k →
      (k.method? c x = some f ↔ h.Inherits x c f) :=
    fun hlast => hier.method?_eq_some_iff hlast hc
  have hkept : ∀ more h'', h'.Course more h'' →
      h''.class? c = h'.class? c ∧ ∀ x, h''.method? c x = h'.method? c x := by
    intro more h'' hmore
    have hlast := (hh.trans hmore).classesLast
    obtain ⟨cls, hcls⟩ := Option.isSome_iff_exists.1 hc
    refine ⟨(hlast c cls hcls).trans (hh.classesLast c cls hcls).symm, fun x => ?_⟩
    rw [hier.method?_eq hlast hc, hier.method?_eq hh.classesLast hc]
  -- the search for `init` is made once the instance is there
  have hmade : h.ClassesLast (h'.newInstance c).1 := hh.classesLast.trans (.of_eq rfl)
  have harity : ∀ {f init : Function}, h.Inherits initName c f → init.decl = f.decl →
      h'.arity? (.classRef c) = some init.decl.params.length := by
    intro f init hf hdecl
    simp only [Heap.arity?, Heap.classArity, (hmethod hh.classesLast).2 hf, hdecl]
  -- a call that runs something makes the instance first
  have hruns : ∀ rules n paren args m t m', m.heap = h' →
      Calls rules n (.invoke paren (.classRef c) args) m t m' →
        ∃ f init, h.Inherits initName c f ∧ init.decl = f.decl ∧ t = .runFunction init args := by
    rintro rules n paren args m t m' rfl hcall
    cases hcall with
    | init hinit =>
      obtain ⟨-, f, hf, hbound, -⟩ := instantiate_init hinit
      exact ⟨f, _, (hmethod hmade).1 hf, by rw [hbound]; rfl, rfl⟩
  constructor
  case methods => exact fun x f => hmethod hh.classesLast
  case kept => exact hkept
  case undisturbed =>
    rintro rules n t m rfl
    obtain ⟨more, hcourse, -⟩ := t.course rules n m
    exact hkept more _ hcourse
  case initialised =>
    rintro f hf rules n paren args m rfl
    refine ⟨_, _, _, Array.getElem?_eq_none (Nat.le_refl m.heap.instances.size),
      .init (instantiate_of_method ((hmethod hmade).2 hf)), rfl, rfl, ?_, harity hf rfl⟩
    exact (Heap.scope?_bind _ f _ _).trans (if_pos rfl)
  case arity =>
    intro rules n paren args m t m' hheap hcall
    obtain ⟨f, init, hf, hdecl, ht⟩ := hruns rules n paren args m t m' hheap hcall
    exact ⟨init, ht, harity hf hdecl⟩
  case uninitialised =>
    intro hmissing
    have hnone : h'.method? c initName = none :=
      Option.eq_none_iff_forall_ne_some.2 fun f hf =>
        hmissing f ((hmethod hh.classesLast).1 hf)
    refine ⟨by simp only [Heap.arity?, Heap.classArity, hnone], ?_⟩
    intro rules n paren args m t m' hheap hcall
    obtain ⟨f, -, hf, -⟩ := hruns rules n paren args m t m' hheap hcall
    exact hmissing f hf

/-- **The laws of instances and classes**: whatever instances are made of an
acyclic hierarchy, and whatever is set on them and fetched from them, each
name means on each instance what was last set there, and else the nearest
method, and the classes have the methods they had. -/
theorem object_laws (hier : h.Hierarchy) (hh : h.Course log h') :
    (∀ i inst, h'.instance? i = some inst → (h.class? inst.classOf).isSome = true →
      ∀ x, PropertyLaws h log h' i inst.classOf x) ∧
    ∀ c, (h.class? c).isSome = true → ClassLaws h h' c :=
  ⟨fun _ _ hi hc x => propertyLaws hier hh hi hc x, fun _ hc => classLaws hier hh hc⟩

/-- Two instances of a class that inherits a method: what is set on the one
hides the method there, and not on the other. -/
theorem object_laws_hidden :
    let x := Text.ofString "m"
    let f : Function := ⟨⟨⟨.identifier, x, .nil, 1⟩, [], []⟩, ⟨0⟩, false⟩
    let base : Heap := { classes := #[⟨Text.ofString "A", none, Table.empty.insert x f⟩,
      ⟨Text.ofString "B", some ⟨0⟩, .empty⟩] }
    let made := ((base.newInstance ⟨1⟩).1.newInstance ⟨1⟩).1
    let m : Machine := ⟨made.setField ⟨0⟩ x .nil, ⟨0⟩, 0, []⟩
    base.Hierarchy ∧ base.Course [⟨⟨0⟩, x, .nil⟩] m.heap ∧
      readProperty ⟨0⟩ f.decl.name m = .done .nil m ∧
      ∃ g s m', readProperty ⟨1⟩ f.decl.name m = .done (.function g) m' ∧
        m'.heap.scope? s = some ⟨receiverTable ⟨1⟩, some ⟨0⟩⟩ := by
  intro x f base made m
  have hier : base.Hierarchy := by
    refine Heap.hierarchy_of_lt fun c cls sup hc hsup => ?_
    obtain ⟨_ | _ | c⟩ := c
    · cases hc
      cases hsup
    · cases hc
      cases hsup
      exact Nat.zero_lt_one
    · cases hc
  have hcourse : base.Course [⟨⟨0⟩, x, .nil⟩] m.heap :=
    .set (.instantiate (.instantiate .start ⟨1⟩) ⟨1⟩) rfl x .nil
  have hfirst : m.heap.instance? ⟨0⟩ = some ⟨⟨1⟩, Table.empty.insert x .nil⟩ := rfl
  have hsecond : m.heap.instance? ⟨1⟩ = some ⟨⟨1⟩, .empty⟩ := rfl
  have hfree : Untouched [⟨⟨0⟩, x, .nil⟩] ⟨1⟩ x := by
    intro e he hof
    cases List.mem_singleton.1 he
    cases hof.1
  have hinherits : base.Inherits x ⟨1⟩ f :=
    .above rfl rfl rfl (.own rfl (Table.find?_insert_self _ _ _))
  obtain ⟨instances, -⟩ := object_laws hier hcourse
  have hset := (instances ⟨0⟩ _ hfirst rfl x).set .nil ⟨[], [], rfl, nofun⟩ f.decl.name m rfl rfl
  obtain ⟨g, s, m', hread, -, -, -, hscope⟩ :=
    (instances ⟨1⟩ _ hsecond rfl x).method f hfree rfl hinherits f.decl.name m rfl rfl
  exact ⟨hier, hcourse, hset, g, s, m', hread, hscope⟩

end

end Eval

end TanLang
