import TanLang.Proofs.Evaluation.Receivers
/-!
# Evaluation — methods and the instances they are bound to

In the body of a bound method, at any depth of blocks, and in the bodies of
the functions declared there, the nearest scope with `this` is the method's
own: **a `this` is the instance that the method was fetched from**. A function
that sets up instances answers with the instance of its scope, however its
body finishes, and a class call answers with the instance it has just made.
-/

namespace TanLang

open Scoping

namespace Eval

/-! ## The code of a task -/

/-- The scope whose code a task is about. -/
def Task.home (m : Machine) : Task → ScopeId
  | .runFunction f _ => f.closure
  | .leaveCall f _ => f.closure
  | _ => m.active

/-- Whether a task is a call. -/
def Task.isCall : Task → Bool
  | .apply _ _ _ => true
  | .invoke _ _ _ => true
  | _ => false

/-- **What is reached in the code of a task**, up to the calls in it. -/
inductive Covers (rules : Rules) : Nat → Task → Machine → Task → Machine → Prop where
  | here {n t m} : Covers rules n t m t m
  | call {n t m t' m' t'' m''} (hcall : Calls rules n t m t' m') (hown : t.isCall = false)
      (hrest : Covers rules n t' m' t'' m'') : Covers rules (n + 1) t m t'' m''

variable {α : Type} {rules : Rules} {n : Nat} {t t' : Task} {m m' m'' : Machine}
variable {f : Function} {args : List Value} {c : ClassId}

/-! ## Where `this` is found -/

section

variable {s : ScopeId} {i : InstanceId} {keyword : Token} {address : Address}

/-- What an orderly task calls is orderly, and the heap is steady up to it. -/
theorem Orderly.call (h : Orderly t m) (hrules : rules.addressing = .distance)
    (hcall : Calls rules n t m t' m') : Orderly t' m' ∧ m.heap.Steady m'.heap := by
  obtain ⟨hfine, hfollows, -⟩ := (inOrder_upholds hrules _).call (h.inOrder rules (n + 1)) hcall
  exact ⟨hfine.toOrderly, hfollows.steady⟩

/-- **A task works in its scope or right inside it.** -/
theorem Calls.within (hcall : Calls rules n t m t' m') (h : Orderly t m)
    (hrules : rules.addressing = .distance) (hown : t.isCall = false)
    (hwithin : m.heap.Within s (t.home m)) : m'.heap.Within s (t'.home m') := by
  obtain ⟨-, hsteady⟩ := h.call hrules hcall
  obtain ⟨κ, -, hcode⟩ := h.code
  have hsame : t.shifts = false → m.heap.Within s m.active → m'.heap.Within s m'.active := by
    intro hshifts hactive
    rw [hcall.active_eq hshifts]
    exact hactive.steady hsteady
  cases hcall with
  | block => exact hwithin.newScope
  | body henter =>
    obtain ⟨rfl, rfl⟩ := enterCall_done henter
    obtain ⟨κ', -, hroutine, -⟩ := hcode
    exact hwithin.enter (routineRespects_iff.1 hroutine).1
  | leave _ _ => exact hwithin.steady hsteady
  | apply _ _ | function _ | init _ => cases hown
  | forLoop | forInitial | forAfter _ => exact hcode.elim
  | _ => exact hsame rfl hwithin

/-- **The code of a task runs within its scope**, at any depth of blocks. -/
theorem Covers.within (hcovers : Covers rules n t m t' m') (h : Orderly t m)
    (hrules : rules.addressing = .distance) (hwithin : m.heap.Within s (t.home m)) :
    Orderly t' m' ∧ m.heap.Steady m'.heap ∧ m'.heap.Within s (t'.home m') := by
  induction hcovers with
  | here => exact ⟨h, .refl _, hwithin⟩
  | call hcall hown _ ih =>
    obtain ⟨h', hsteady⟩ := h.call hrules hcall
    obtain ⟨h'', hsteady', hwithin'⟩ := ih h' (hcall.within h hrules hown hwithin)
    exact ⟨h'', hsteady.trans hsteady', hwithin'⟩

/-- **A `this` is the instance that the nearest scope with `this` receives.** -/
theorem Orderly.evaluate_receiver (h : Orderly (.evaluate (.receiver keyword address)) m)
    (hrules : rules.addressing = .distance) :
    ∃ s i, m.heap.Within s m.active ∧ m.heap.Receives s i ∧
      ∀ n, evaluate rules (n + 1) (.receiver keyword address) m = .done (.instanceRef i) m := by
  obtain ⟨κ, hshaped, hfinds⟩ := h.code
  obtain ⟨d, rfl⟩ := Option.isSome_iff_exists.1 hfinds.found
  obtain ⟨s, scope, hancestor, hscope, hthis, hwithin⟩ := hshaped.nearest hfinds.nearest.symm
  obtain ⟨i, hreceives, -⟩ := h.heap.receives hscope hthis
  refine ⟨s, i, hwithin, hreceives, fun n => ?_⟩
  simp only [evaluate, Action.read, place_some hrules hancestor, hfinds.name, hreceives.boundIn]
  rfl

end

/-! ## What calls answer with -/

section

variable {paren : Token} {v : Value} {i : InstanceId}

/-- **The heap after an orderly task.** -/
theorem Orderly.after (h : Orderly t m) (hrules : rules.addressing = .distance) {a : t.Answer}
    (hdone : t.run rules n m = .done a m') : m'.heap.Respectful ∧ m.heap.Steady m'.heap := by
  have hfollows := (inOrder_upholds hrules _).run (h.inOrder rules n)
  rw [hdone] at hfollows
  exact ⟨hfollows.respectful h.heap, hfollows.steady⟩

theorem inScope_done_iff {x : Action α} {s : ScopeId} {a : α} :
    Action.inScope s x m = .done a m' ↔
      ∃ m₁, x { m with active := s } = .done a m₁ ∧ m' = { m₁ with active := m.active } := by
  constructor
  · intro h
    change (x { m with active := s }).mapMachine _ = _ at h
    cases hx : x { m with active := s } <;> rw [hx] at h <;> cases h
    exact ⟨_, rfl, rfl⟩
  · rintro ⟨m₁, hx, rfl⟩
    show (x { m with active := s }).mapMachine _ = _
    rw [hx]
    rfl

theorem counted_done {x : Action α} {a : α} (h : Action.counted x m = .done a m') :
    ∃ m₁, x { m with depth := m.depth + 1 } = .done a m₁ ∧ m'.heap = m₁.heap := by
  change (x { m with depth := m.depth + 1 }).mapMachine _ = _ at h
  cases hx : x { m with depth := m.depth + 1 } <;> rw [hx] at h <;> cases h
  exact ⟨_, rfl, rfl⟩

/-- **A function answers exactly when its body finishes**, and then with what
its scopes make of that. -/
theorem runFunction_done_iff : runFunction rules (n + 1) f args m = .done v m' ↔
    ∃ s m₁ c m₂, enterCall f args m = .done s m₁ ∧
      executeAll rules n f.decl.body { m₁ with active := s } = .done c m₂ ∧
      v = m₂.heap.answer f c ∧ m' = { m₂ with active := m.active } := by
  simp only [runFunction]
  constructor
  · intro hdone
    obtain ⟨s, m₁, henter, hrest⟩ := exists_done_of_bind hdone
    obtain ⟨c, m₂, hscope, hleave⟩ := exists_done_of_bind hrest
    obtain ⟨m₃, hbody, rfl⟩ := inScope_done_iff.1 hscope
    cases hleave
    obtain ⟨rfl, rfl⟩ := enterCall_done henter
    exact ⟨_, _, c, m₃, henter, hbody, rfl, rfl⟩
  · rintro ⟨s, m₁, c, m₂, henter, hbody, rfl, rfl⟩
    rw [bind_of_done henter]
    have hscope := inScope_done_iff.2 ⟨m₂, hbody, rfl⟩
    rw [bind_of_done hscope]
    obtain ⟨rfl, rfl⟩ := enterCall_done henter
    rfl

/-- **A function that sets up instances answers with its own**, whatever its
body completes with, and exactly when the body finishes. -/
theorem Orderly.runFunction_init (h : Orderly (.runFunction f args) m)
    (hrules : rules.addressing = .distance) (hinit : f.isInit = true) :
    ∃ i, m.heap.Receives f.closure i ∧ ∀ n v m', runFunction rules (n + 1) f args m = .done v m' ↔
      v = .instanceRef i ∧ ∃ s m₁ c m₂, enterCall f args m = .done s m₁ ∧
        executeAll rules n f.decl.body { m₁ with active := s } = .done c m₂ ∧
        m' = { m₂ with active := m.active } := by
  obtain ⟨κ, -, κ', -, -, hthis⟩ := h.code
  obtain ⟨i, hi⟩ := hthis hinit
  -- the scope still receives the instance when the body has finished
  have hanswer : ∀ {n s m₁ c m₂}, enterCall f args m = .done s m₁ →
      executeAll rules n f.decl.body { m₁ with active := s } = .done c m₂ →
      m₂.heap.answer f c = .instanceRef i := by
    intro n s m₁ c m₂ henter hbody
    have hsteady := (h.call hrules (.leave henter (inScope_done_iff.2 ⟨m₂, hbody, rfl⟩))).2
    have hthere : m₂.heap.Receives f.closure i := hsteady.receives hi
    simp only [Heap.answer, hinit, if_true, hthere.boundIn, Option.getD_some]
  refine ⟨i, hi, fun n v m' => runFunction_done_iff.trans ⟨?_, ?_⟩⟩
  · rintro ⟨s, m₁, c, m₂, henter, hbody, rfl, rfl⟩
    exact ⟨hanswer henter hbody, s, m₁, c, m₂, henter, hbody, rfl⟩
  · rintro ⟨rfl, s, m₁, c, m₂, henter, hbody, rfl⟩
    exact ⟨s, m₁, c, m₂, henter, hbody, (hanswer henter hbody).symm, rfl⟩

/-- **A call of a class answers with the instance it has made.** -/
theorem Orderly.invoke_class (h : Orderly (.invoke paren (.classRef c) args) m)
    (hrules : rules.addressing = .distance)
    (hdone : invoke rules n paren (.classRef c) args m = .done v m') :
    v = .instanceRef (m.heap.newInstance c).2 ∧
      ∃ inst, m'.heap.instance? (m.heap.newInstance c).2 = some inst ∧ inst.classOf = c := by
  have hnew : (m.heap.newInstance c).1.instance? (m.heap.newInstance c).2 = some ⟨c, .empty⟩ := by
    simp [Heap.newInstance, Heap.instance?]
  cases n with
  | zero => cases hdone
  | succ n =>
    simp only [invoke] at hdone
    obtain ⟨⟨i, init⟩, m₁, hmade, hdone⟩ := exists_done_of_bind hdone
    cases init with
    | none =>
      rw [instantiate_eq] at hmade
      split at hmade <;> cases hmade
      cases hdone
      exact ⟨rfl, _, hnew, rfl⟩
    | some init =>
      obtain ⟨w, m₂, hrun, hdone⟩ := exists_done_of_bind hdone
      cases hdone
      have hafter := ((h.call hrules (n := n) (.init hmade)).1.after hrules (n := n) hrun).2
      obtain ⟨rfl, f, hmethod, rfl, rfl⟩ := instantiate_init hmade
      exact ⟨rfl, hafter.instances _ _ hnew⟩

/-- What a call answers with comes from what it does, once it is checked. -/
theorem apply_done {callee : Value} (hdone : apply rules (n + 1) paren callee args m = .done v m') :
    ∃ m₁, Calls rules n (.apply paren callee args) m (.invoke paren callee args)
        { m with depth := m.depth + 1 } ∧
      invoke rules n paren callee args { m with depth := m.depth + 1 } = .done v m₁ ∧
      m'.heap = m₁.heap := by
  simp only [apply] at hdone
  obtain ⟨_, m₁, hcall, hrest⟩ := exists_done_of_bind hdone
  obtain ⟨_, m₂, hdepth, hcounted⟩ := exists_done_of_bind hrest
  obtain ⟨rfl, -⟩ := arity?_of_checkCall hcall
  obtain rfl := checkDepth_done hdepth
  obtain ⟨m₃, hinvoke, hheap⟩ := counted_done hcounted
  exact ⟨m₃, .apply hcall hdepth, hinvoke, hheap⟩

theorem Orderly.apply_class (h : Orderly (.apply paren (.classRef c) args) m)
    (hrules : rules.addressing = .distance)
    (hdone : apply rules n paren (.classRef c) args m = .done v m') :
    v = .instanceRef (m.heap.newInstance c).2 ∧
      ∃ inst, m'.heap.instance? (m.heap.newInstance c).2 = some inst ∧ inst.classOf = c := by
  cases n with
  | zero => cases hdone
  | succ n =>
    obtain ⟨m₁, hcall, hinvoke, hheap⟩ := apply_done hdone
    rw [hheap]
    exact (h.call hrules hcall).1.invoke_class hrules hinvoke

/-- **A call of a class answers once its `init` has**, if there is one. -/
theorem invoke_class_of_instantiate :
    (∀ i m₁, instantiate c m = .done (i, none) m₁ →
      ∀ n, invoke rules (n + 1) paren (.classRef c) args m = .done (.instanceRef i) m₁) ∧
    ∀ i init m₁ n w m₂, instantiate c m = .done (i, some init) m₁ →
      runFunction rules n init args m₁ = .done w m₂ →
      invoke rules (n + 1) paren (.classRef c) args m = .done (.instanceRef i) m₂ := by
  refine ⟨fun i m₁ hmade n => ?_, fun i init m₁ n w m₂ hmade hrun => ?_⟩
  · simp only [invoke]
    rw [bind_of_done hmade]
    rfl
  · simp only [invoke]
    rw [bind_of_done hmade]
    exact bind_of_done hrun

/-- **A function that sets up instances, when it is called by its place**,
answers with the instance of its scope. -/
theorem Orderly.apply_init {id : FunctionId} (h : Orderly (.apply paren (.function id) args) m)
    (hrules : rules.addressing = .distance) (hf : m.heap.function? id = some f)
    (hinit : f.isInit = true) (hi : m.heap.Receives f.closure i)
    (hdone : apply rules n paren (.function id) args m = .done v m') : v = .instanceRef i := by
  obtain _ | n := n
  · cases hdone
  obtain ⟨m₁, hcall, hinvoke, -⟩ := apply_done hdone
  have h₁ := (h.call hrules hcall).1
  obtain _ | n := n
  · cases hinvoke
  simp only [invoke] at hinvoke
  obtain ⟨fn, m₂, hfetch, hrun⟩ := exists_done_of_bind hinvoke
  have h₂ := (h₁.call hrules (n := n) (.function hfetch)).1
  obtain ⟨hfn, rfl⟩ := fetchFunction_done hfetch
  cases hf.symm.trans hfn
  obtain _ | n := n
  · cases hrun
  obtain ⟨j, hj, hanswer⟩ := h₂.runFunction_init hrules hinit
  rw [((hanswer n v m₁).1 hrun).1, hj.unique hi]

/-- **Calling `init` on an instance answers with that instance.** -/
theorem Orderly.call_init {object : Expr Address} {name : Token} {es : List (Expr Address)}
    (h : Orderly (.evaluate (.call (.get object name) paren es)) m)
    (hrules : rules.addressing = .distance) (hname : name.lexeme = initName)
    (hobject : evaluate rules n object m = .done (.instanceRef i) m')
    (hmethod : m'.heap.property? i name.lexeme = some (.method f))
    (hdone : evaluate rules (n + 2) (.call (.get object name) paren es) m = .done v m'') :
    v = .instanceRef i := by
  have hget := evaluate_get hobject hmethod
  -- the method is `init`, so the function that is bound sets up instances
  have hinit : f.isInit = true := by
    have hcallee := (h.call hrules (n := n + 1) .callee).1
    have hr := ((hcallee.call hrules (n := n) .object).1.after hrules (n := n) hobject).1
    obtain ⟨c, hfound⟩ := Heap.exists_method?_of_property? hmethod
    exact (hr.method? hfound).1.2 hname
  rw [evaluate] at hdone
  obtain ⟨callee, m₁, hcallee, hrest⟩ := exists_done_of_bind hdone
  cases hget.symm.trans hcallee
  obtain ⟨vs, m₂, hargs, happly⟩ := exists_done_of_bind hrest
  -- the arguments leave the function and its scope alone
  have hsteady := ((h.call hrules (.args hget)).1.after hrules (n := n + 1) hargs).2
  have hfunction : m₂.heap.function? ⟨m'.heap.functions.size⟩ = some (m'.heap.bind f i).2 :=
    hsteady.functions _ _ (Array.getElem?_push_size ..)
  have hreceives : m₂.heap.Receives (m'.heap.bind f i).2.closure i :=
    hsteady.receives (m'.heap.receives_bind f i)
  exact (h.call hrules (.call hget hargs)).1.apply_init hrules hfunction hinit hreceives happly

end

/-! ## Every moment -/

/-- **What `this` and instances come to at a moment of a run.** -/
structure ThisAt (rules : Rules) (t : Task) (m : Machine) : Prop where
  /-- A `this` is the instance that the nearest scope with `this` receives. -/
  receiver : ∀ keyword address, t = .evaluate (.receiver keyword address) →
    ∃ s i, m.heap.Within s m.active ∧ m.heap.Receives s i ∧
      ∀ n, evaluate rules (n + 1) (.receiver keyword address) m = .done (.instanceRef i) m
  /-- Of a function made in a scope that receives an instance, or within one,
  all the code runs within it, and every `this` in the code is that instance. -/
  body : ∀ f args, t = .runFunction f args → ∀ s i, m.heap.Receives s i →
    m.heap.Within s f.closure → ∀ n t' m', Covers rules n t m t' m' →
      m'.heap.Within s (t'.home m') ∧
      ∀ keyword address, t' = .evaluate (.receiver keyword address) →
        ∀ k, evaluate rules (k + 1) (.receiver keyword address) m' = .done (.instanceRef i) m'
  /-- A function is made in the scope that its declaration runs in. -/
  declared : ∀ decl, t = .execute (.function decl) → ∀ n, ∃ m',
    execute rules (n + 1) (.function decl) m = .done .normal m' ∧
      m'.heap.function? ⟨m.heap.functions.size⟩ = some ⟨decl, m.active, false⟩
  /-- The answer of a class is an instance of it that was not there before. -/
  classCall : ∀ paren c args, t = .apply paren (.classRef c) args →
    ∀ n v m', apply rules n paren (.classRef c) args m = .done v m' →
      v = .instanceRef ⟨m.heap.instances.size⟩ ∧
      m.heap.instance? ⟨m.heap.instances.size⟩ = none ∧
      ∃ inst, m'.heap.instance? ⟨m.heap.instances.size⟩ = some inst ∧ inst.classOf = c
  /-- There is an answer if there is no `init`, and else if `init` finishes. -/
  classAnswer : ∀ paren c args, t = .invoke paren (.classRef c) args → ∀ i m₁,
    (instantiate c m = .done (i, none) m₁ →
      ∀ n, invoke rules (n + 1) paren (.classRef c) args m = .done (.instanceRef i) m₁) ∧
    ∀ init n w m₂, instantiate c m = .done (i, some init) m₁ →
      runFunction rules n init args m₁ = .done w m₂ →
      invoke rules (n + 1) paren (.classRef c) args m = .done (.instanceRef i) m₂
  /-- A function that sets up instances answers with the instance of its own
  scope, exactly when its body finishes, in whatever way. -/
  init : ∀ f args, t = .runFunction f args → f.isInit = true →
    ∃ i, m.heap.Receives f.closure i ∧
      ∀ n v m', runFunction rules (n + 1) f args m = .done v m' ↔
        v = .instanceRef i ∧ ∃ s m₁ c m₂, enterCall f args m = .done s m₁ ∧
          executeAll rules n f.decl.body { m₁ with active := s } = .done c m₂ ∧
          m' = { m₂ with active := m.active }
  /-- Calling the method `init` of an instance answers with the instance. -/
  initCall : ∀ object name paren args, t = .evaluate (.call (.get object name) paren args) →
    name.lexeme = initName → ∀ n i m₁ f v m',
      evaluate rules n object m = .done (.instanceRef i) m₁ →
      m₁.heap.property? i name.lexeme = some (.method f) →
      evaluate rules (n + 2) (.call (.get object name) paren args) m = .done v m' →
      v = .instanceRef i

/-- **An orderly task makes `this` what it should be.** -/
theorem Orderly.thisAt (h : Orderly t m) (hrules : rules.addressing = .distance) :
    ThisAt rules t m where
  receiver := by
    rintro keyword address rfl
    exact h.evaluate_receiver hrules
  body := by
    rintro f args rfl s i hreceives hwithin n t' m' hcovers
    obtain ⟨h', hsteady, hwithin'⟩ := hcovers.within h hrules hwithin
    refine ⟨hwithin', ?_⟩
    rintro keyword address rfl
    -- the scope that is found is the nearest one, so the one given
    obtain ⟨s', j, hnearest, hj, hevaluate⟩ := h'.evaluate_receiver hrules
    have hi := hsteady.receives hreceives
    obtain rfl := hwithin'.unique hi hnearest hj
    rw [hi.unique hj]
    exact hevaluate
  declared := by
    rintro decl rfl n
    refine ⟨_, rfl, ?_⟩
    exact Array.getElem?_push_size ..
  classCall := by
    rintro paren c args rfl n v m' hdone
    obtain ⟨hv, hinst⟩ := h.apply_class hrules hdone
    exact ⟨hv, Array.getElem?_eq_none (Nat.le_refl _), hinst⟩
  classAnswer := by
    rintro paren c args rfl i m₁
    exact ⟨invoke_class_of_instantiate.1 i m₁,
      fun init n w m₂ => invoke_class_of_instantiate.2 i init m₁ n w m₂⟩
  init := by
    rintro f args rfl hinit
    exact h.runFunction_init hrules hinit
  initCall := by
    rintro object name paren args rfl hname n i m₁ f v m' hobject hmethod hdone
    exact h.call_init hrules hname hobject hmethod hdone

end Eval

end TanLang
