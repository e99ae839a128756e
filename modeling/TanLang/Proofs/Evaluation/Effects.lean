import TanLang.Proofs.Evaluation.Anatomy
import TanLang.Proofs.Evaluation.Conduct
/-!
# Evaluation — what a run does to the heap

A task runs the tasks it calls and does single things in between. So to say
how any run changes the heap it is enough to say it of those single things:
if each of them takes a heap to a related one, wherever a task is in order,
and what such a task calls is in order again, then **the whole run takes its
heap to a related one**, by way of every moment it comes to.
-/

namespace TanLang

namespace Eval

/-- **Tasks in order keep a relation between heaps.** Whether a task is in
order may depend on the bound that it runs with. -/
structure Upholds (rules : Rules) (Fine : Nat → Task → Machine → Prop) (R : Heap → Heap → Prop) :
    Prop where
  refl : ∀ h, R h h
  trans : ∀ {h h' h''}, R h h' → R h' h'' → R h h''
  /-- A new scope. -/
  opens : ∀ m, R m.heap (entered m).heap
  /-- A task that is called, after what was done before it. -/
  calls : ∀ {n t m t' m'}, Fine (n + 1) t m → Calls rules n t m t' m' → R m.heap m'.heap →
    Fine n t' m'
  /-- A single thing that a task does itself. -/
  acts : ∀ {n t m m' α} {x : Action α}, Fine (n + 1) t m → Acts rules n t m m' x →
    R m.heap m'.heap → R m'.heap (x m').machine.heap
  /-- A task that has no bound left, and may still use a name. -/
  ends : ∀ {t m}, Fine 0 t m → R m.heap (t.run rules 0 m).machine.heap

variable {α β : Type} {rules : Rules} {Fine : Nat → Task → Machine → Prop}
variable {R : Heap → Heap → Prop} {n bound : Nat} {t t' : Task} {m m' m'' : Machine}
variable {p : Program Address}

section

variable {x : Action α}

theorem heap_inScope (s : ScopeId) :
    (Action.inScope s x m).machine.heap = (x { m with active := s }).machine.heap := by
  show ((x { m with active := s }).mapMachine _).machine.heap = _
  rw [Outcome.machine_mapMachine]

theorem heap_inNewScope :
    (Action.inNewScope x m).machine.heap = (x (entered m)).machine.heap :=
  heap_inScope _

theorem heap_counted :
    (Action.counted x m).machine.heap = (x { m with depth := m.depth + 1 }).machine.heap := by
  show ((x { m with depth := m.depth + 1 }).mapMachine _).machine.heap = _
  rw [Outcome.machine_mapMachine]

end

/-- **However a task ends, the scope is active that was.** -/
theorem Task.active_run (rules : Rules) (n : Nat) (t : Task) (m : Machine) :
    (t.run rules n m).machine.active = m.active := by
  have hwithin : BehavesWithin (fun _ => True) rules n := behavesWithin rules n
  have hbehaved : ∀ {α : Type} {x : Action α} {Then : α → Prop}, Behaves (fun _ => True) x Then →
      (x m).machine.active = m.active := fun hx => (hx m (.of_true m.heap)).leaves.active
  cases t with
  | evaluate e => exact hbehaved (hwithin.evaluate fun _ _ => trivial)
  | evaluateAll es => exact hbehaved (hwithin.evaluateAll fun _ _ => trivial)
  | apply paren callee args => exact hbehaved (hwithin.apply trivial)
  | invoke paren callee args => exact hbehaved (hwithin.invoke trivial)
  | runFunction f args => exact hbehaved (hwithin.runFunction fun _ _ => trivial)
  | leaveCall f c => rfl
  | execute s => exact hbehaved (hwithin.execute fun _ _ => trivial)
  | evaluateOption e => exact hbehaved (hwithin.evaluateOption fun _ _ => trivial)
  | executeOption s => exact hbehaved (hwithin.executeOption fun _ _ => trivial)
  | executeAll ss => exact hbehaved (hwithin.executeAll fun _ _ => trivial)
  | repeatWhile cond body =>
    exact hbehaved (hwithin.repeatWhile (fun _ _ => trivial) fun _ _ => trivial)
  | repeatFor cond step body =>
    exact hbehaved (hwithin.repeatFor (fun _ _ => trivial) (fun _ _ => trivial) fun _ _ => trivial)
  | evaluateCondition e => exact hbehaved (hwithin.evaluateCondition fun _ _ => trivial)
  | read name address => exact hbehaved (read_behaves trivial)
  | write name address v => exact hbehaved (write_behaves trivial)

theorem active_interpret (rules : Rules) (bound : Nat) (p : Program Address) (m : Machine) :
    (interpret rules bound p m).machine.active = m.active := by
  have hbehaves : Behaves (fun _ => True) (interpret rules bound p) Whatever :=
    interpret_behaves fun _ _ => trivial
  exact (hbehaves m (.of_true m.heap)).leaves.active

theorem Task.active_of_done {a : t.Answer} (hdone : t.run rules n m = .done a m') :
    m'.active = m.active := by
  have hactive := Task.active_run rules n t m
  rw [hdone] at hactive
  exact hactive

namespace Upholds

/-- **What a part of a task does to the heap**: from where it starts, and from
the end of each task that it calls. -/
theorem made {x : Action α} {V : Task → Machine → Prop} (h : Upholds rules Fine R)
    (hwithin : ∀ t' m', Fine n t' m' → R m'.heap (t'.run rules n m').machine.heap)
    (hmade : Made rules n t m m' x V) (hfine : Fine (n + 1) t m) (hbefore : R m.heap m'.heap) :
    R m'.heap (x m').machine.heap ∧ ∀ t' m'', V t' m'' →
      R m.heap m''.heap ∧ R (t'.run rules n m'').machine.heap (x m').machine.heap := by
  induction hmade with
  | result a => exact ⟨h.refl _, fun _ _ hV => hV.elim⟩
  | @call m' t' hcall =>
    refine ⟨hwithin _ _ (h.calls hfine hcall hbefore), ?_⟩
    rintro t'' m'' ⟨rfl, rfl⟩
    exact ⟨hbefore, h.refl _⟩
  | act hacts => exact ⟨h.acts hfine hacts hbefore, fun _ _ hV => hV.elim⟩
  | @bind m' α β x f V W _ _ ihx ihf =>
    obtain ⟨hx, hvisited⟩ := ihx hbefore
    rcases (x m').done_or_halt with ⟨a, m₁, hdone⟩ | ⟨k, hhalt⟩
    · have hm₁ : (x m').machine.heap = m₁.heap := by rw [hdone]; rfl
      rw [hm₁] at hx hvisited
      obtain ⟨hf, hvisited'⟩ := ihf a m₁ hdone (h.trans hbefore hx)
      rw [bind_of_done hdone]
      refine ⟨h.trans hx hf, ?_⟩
      rintro t' m'' (hV | ⟨a', m₁', hdone', hW⟩)
      · obtain ⟨hto, hfrom⟩ := hvisited t' m'' hV
        exact ⟨hto, h.trans hfrom hf⟩
      · -- the second action is the one after the answer that there was
        rw [hdone] at hdone'
        cases hdone'
        exact hvisited' t' m'' hW
    · rw [(bind_of_halt hhalt).2]
      refine ⟨hx, ?_⟩
      rintro t' m'' (hV | ⟨a', m₁', hdone', -⟩)
      · exact hvisited t' m'' hV
      · rw [hdone'] at hhalt
        cases hhalt
  | @choice m' α c x y V W _ _ ihyes ihno =>
    cases c with
    | true =>
      obtain ⟨hx, hvisited⟩ := ihyes rfl hbefore
      refine ⟨hx, ?_⟩
      rintro t' m'' (⟨-, hV⟩ | ⟨⟨⟩, -⟩)
      exact hvisited t' m'' hV
    | false =>
      obtain ⟨hy, hvisited⟩ := ihno rfl hbefore
      refine ⟨hy, ?_⟩
      rintro t' m'' (⟨⟨⟩, -⟩ | ⟨-, hW⟩)
      exact hvisited t' m'' hW
  | inScope _ ih =>
    rw [heap_inScope]
    exact ih hbefore
  | inNewScope _ ih =>
    obtain ⟨hx, hvisited⟩ := ih (h.opens m)
    rw [heap_inNewScope]
    exact ⟨h.trans (h.opens m) hx, hvisited⟩
  | counted _ ih =>
    rw [heap_counted]
    exact ih hbefore
  | fewer _ hfewer ih =>
    obtain ⟨hx, hvisited⟩ := ih hbefore
    exact ⟨hx, fun t' m'' hW => hvisited t' m'' (hfewer t' m'' hW)⟩

/-- **A task in order keeps the relation**, whatever the bound. -/
theorem run (h : Upholds rules Fine R) (hfine : Fine n t m) :
    R m.heap (t.run rules n m).machine.heap := by
  induction n generalizing t m with
  | zero => exact h.ends hfine
  | succ n ih => exact (h.made (fun _ _ => ih) (t.made m) hfine (h.refl _)).1

/-- **The way down to a task and back from it.** -/
theorem call (h : Upholds rules Fine R) (hfine : Fine (n + 1) t m)
    (hcall : Calls rules n t m t' m') :
    Fine n t' m' ∧ R m.heap m'.heap ∧
      R (t'.run rules n m').machine.heap (t.run rules (n + 1) m).machine.heap := by
  obtain ⟨hto, hfrom⟩ :=
    (h.made (fun _ _ => h.run) (t.made m) hfine (h.refl _)).2 t' m' hcall
  exact ⟨h.calls hfine hcall hto, hto, hfrom⟩

/-- **Every moment of a run**: the task there is in order, and the heap there
is on the way from the first one to the last. -/
theorem reaches (h : Upholds rules Fine R) (hreach : Reaches rules n t m t' m')
    (hfine : Fine n t m) :
    (∃ n', Fine n' t' m') ∧ R m.heap m'.heap ∧ R m'.heap (t.run rules n m).machine.heap := by
  induction hreach with
  | here => exact ⟨⟨_, hfine⟩, h.refl _, h.run hfine⟩
  | call hcall _ ih =>
    obtain ⟨hfine', hto, hfrom⟩ := h.call hfine hcall
    obtain ⟨hfine'', hto', hfrom'⟩ := ih hfine'
    exact ⟨hfine'', h.trans hto hto', h.trans hfrom' hfrom⟩

end Upholds

/-- **The statements of a program are in order**, each after what those before
it have done to the heap. -/
def FineAll (rules : Rules) (Fine : Nat → Task → Machine → Prop) (R : Heap → Heap → Prop)
    (bound : Nat) : Program Address → Machine → Prop
  | [], _ => True
  | s :: rest, m => Fine bound (.execute s) m ∧ ∀ c m', execute rules bound s m = .done c m' →
      R m.heap m'.heap → FineAll rules Fine R bound rest m'

namespace Upholds

section

variable {s : Stmt Address} {rest : Program Address}

/-- The rest of a program is in order after the first statement, which has
kept the relation. -/
theorem fine_rest (h : Upholds rules Fine R) (hfine : FineAll rules Fine R bound (s :: rest) m)
    {c : Completion} (hdone : execute rules bound s m = .done c m') :
    R m.heap m'.heap ∧ FineAll rules Fine R bound rest m' := by
  have hfirst := h.run (t := .execute s) hfine.1
  rw [show (Task.execute s).run rules bound m = .done c m' from hdone] at hfirst
  exact ⟨hfirst, hfine.2 c m' hdone hfirst⟩

/-- After its first statement a program goes on to its end. -/
theorem after_first (h : Upholds rules Fine R)
    (hrest : ∀ c m', execute rules bound s m = .done c m' →
      R m'.heap (interpret rules bound rest m').machine.heap) :
    R (execute rules bound s m).machine.heap
      (interpret rules bound (s :: rest) m).machine.heap := by
  show R _ ((execute rules bound s >>= fun _ => Eval.interpret rules bound rest) m).machine.heap
  rcases (execute rules bound s m).done_or_halt with ⟨c, m₁, hdone⟩ | ⟨k, hhalt⟩
  · rw [bind_of_done hdone, hdone]
    exact hrest c m₁ hdone
  · rw [(bind_of_halt hhalt).2]
    exact h.refl _

end

/-- **A program in order keeps the relation.** -/
theorem interpret (h : Upholds rules Fine R) (hfine : FineAll rules Fine R bound p m) :
    R m.heap (interpret rules bound p m).machine.heap := by
  induction p generalizing m with
  | nil => exact h.refl _
  | cons s rest ih =>
    refine h.trans (h.run (t := .execute s) hfine.1) (h.after_first fun c m₁ hdone => ?_)
    exact ih (h.fine_rest hfine hdone).2

/-- **Every moment of a program in order**: the task there is, and the heap
there is on the way from the first one to the last. -/
theorem during (h : Upholds rules Fine R) (hduring : During rules bound p m t m')
    (hfine : FineAll rules Fine R bound p m) :
    (∃ n', Fine n' t m') ∧ R m.heap m'.heap ∧
      R m'.heap (Eval.interpret rules bound p m).machine.heap := by
  induction hduring with
  | first hreach =>
    obtain ⟨hthere, hto, hfrom⟩ := h.reaches hreach hfine.1
    refine ⟨hthere, hto, h.trans hfrom (h.after_first fun c m₁ hdone => ?_)⟩
    exact h.interpret (h.fine_rest hfine hdone).2
  | @next s rest m c m₁ t m' hdone _ ih =>
    obtain ⟨hfirst, hrest⟩ := h.fine_rest hfine hdone
    obtain ⟨hthere, hto, hfrom⟩ := ih hrest
    have hgoes : Eval.interpret rules bound (s :: rest) m = Eval.interpret rules bound rest m₁ :=
      bind_of_done (x := execute rules bound s) hdone
    rw [hgoes]
    exact ⟨hthere, h.trans hfirst hto, hfrom⟩

end Upholds

end Eval

end TanLang
