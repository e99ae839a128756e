import TanLang.Proofs.Evaluation.Anatomy
import TanLang.Proofs.Session.Unwinding
/-!
# Sessions — stack overflows

A call beyond the limit on nested calls ends a run, from whatever depth.
**It is the only thing that the limit does**: a run that ends in another way
is the same under every higher limit, and one that overflows has printed
what the run under a higher limit prints first.

The calls that are open at a moment are those on the way there from the
start of the run. The machine only has a count of them, which is right.
-/

namespace TanLang

namespace Eval

/-- **What is reached from a task, and how many calls are open there**: those
on the way. -/
inductive Nests (rules : Rules) : Nat → Task → Machine → Nat → Task → Machine → Prop where
  | here {n t m} : Nests rules n t m 0 t m
  | call {n t m t' m' opened t'' m''} (hcall : Calls rules n t m t' m')
      (hrest : Nests rules n t' m' opened t'' m'') :
      Nests rules (n + 1) t m (t.opens + opened) t'' m''

/-- **What a program reaches, and how many of its calls are open there.** -/
inductive NestsDuring (rules : Rules) (bound : Nat) :
    Program Address → Machine → Nat → Task → Machine → Prop where
  | first {s rest m opened t m'} (hreach : Nests rules bound (.execute s) m opened t m') :
      NestsDuring rules bound (s :: rest) m opened t m'
  | next {s rest m c m₁ opened t m'} (hdone : execute rules bound s m = .done c m₁)
      (hrest : NestsDuring rules bound rest m₁ opened t m') :
      NestsDuring rules bound (s :: rest) m opened t m'

variable {α β : Type} {m m' : Machine} {rules : Rules} {n : Nat} {t t' : Task} {k : Halt}

/-! ## Only a call overflows -/

/-- **A task is a call that there is no room for**: of something that can be
called with so many arguments, with as many calls open as the limit
allows. -/
def Task.Blocked (rules : Rules) (paren : Token) (m : Machine) : Task → Prop
  | .apply paren' callee args =>
    paren' = paren ∧ m.heap.arity? callee = some args.length ∧ rules.maxDepth ≤ m.depth
  | _ => False

section

variable {x : Action α} {f : α → Action β} {paren : Token}

theorem Plain.elim {P : Prop} (hx : Plain x) (h : (x m).halt? = some (.overflow paren)) : P :=
  absurd h ((hx.mild m).halt? paren)

/-- The check of the depth overflows only where there is no room. -/
theorem full_of_checkDepth {paren' : Token}
    (h : (checkDepth rules paren' m).halt? = some (.overflow paren)) :
    paren' = paren ∧ rules.maxDepth ≤ m.depth := by
  unfold checkDepth at h
  split at h
  · rename_i hfull
    cases h
    exact ⟨rfl, hfull⟩
  · cases h

/-- **A task overflows because it is a call without room**, or because a task
that it calls does. -/
theorem Task.blocked_or_calls (h : t.halt? rules (n + 1) m = some (.overflow paren)) :
    t.Blocked rules paren m ∨ CalleeHalts rules n t m (.overflow paren) := by
  refine (Task.act_or_callee h).imp_left ?_
  rintro ⟨m', α, y, hacts, hhalt⟩
  cases hacts with
  | checkDepth hcall =>
    obtain ⟨rfl, harity⟩ := arity?_of_checkCall hcall
    obtain ⟨rfl, hfull⟩ := full_of_checkDepth hhalt
    exact ⟨rfl, harity, hfull⟩
  | prefixed _ => exact (Plain.prefixed _ _).elim hhalt
  | combine _ _ => exact (Plain.combine _ _ _).elim hhalt
  | object _ => exact (Plain.expectInstance .noProperties _ (by decide)).elim hhalt
  | property _ _ => exact (Plain.readProperty _).elim hhalt
  | target _ => exact (Plain.expectInstance .noFields _ (by decide)).elim hhalt
  | field _ _ _ => exact (Plain.writeField _ _).elim hhalt
  | checkCall => exact (Plain.checkCall _ _).elim hhalt
  | fetch => exact (Plain.fetchFunction _).elim hhalt
  | native => exact (Plain.callNative _ _).elim hhalt
  | instantiate => exact (Plain.instantiate _).elim hhalt
  | notCallable => exact (Plain.raise .notCallable (by decide)).elim hhalt
  | enter => exact (Plain.enterCall _ _).elim hhalt
  | print _ => exact (Plain.print _).elim hhalt
  | define _ => exact (Plain.define _ _).elim hhalt
  | declareFunction => exact (Plain.declareFunction _).elim hhalt
  | notClass _ => exact (Plain.raise .superclassNotClass (by decide)).elim hhalt
  | declareClass _ => exact (Plain.declareClass _ _).elim hhalt
  | read => exact (Plain.read _).elim hhalt
  | write => exact (Plain.write _ _).elim hhalt
  | leave => exact (Plain.leaveCall _ _).elim hhalt

end

/-! ## The calls that are open -/

variable {opened bound : Nat} {p : Program Address} {paren : Token}

/-- **The machine's count of the open calls is right.** -/
theorem Nests.depth_eq (hnests : Nests rules n t m opened t' m') :
    m'.depth = m.depth + opened := by
  induction hnests with
  | here => rfl
  | call hcall _ ih =>
    have hstep := hcall.depth_eq
    omega

theorem NestsDuring.depth_eq (hduring : NestsDuring rules bound p m opened t m') :
    m'.depth = m.depth + opened := by
  induction hduring with
  | first hreach => exact hreach.depth_eq
  | next hdone _ ih =>
    have hwithin : BehavesWithin (fun _ => True) rules bound := behavesWithin rules bound
    have hsame := (hwithin.execute fun _ _ => trivial).depth_of_done hdone
    omega

/-- A call without room ends in an overflow, if the bound is not at its
end. -/
theorem Task.Blocked.halt? (hblocked : t.Blocked rules paren m) :
    t.halt? rules n m = some (.overflow paren) ∨ t.halt? rules n m = some .exhausted := by
  cases t with
  | apply paren' callee args =>
    obtain ⟨rfl, harity, hfull⟩ := hblocked
    cases n with
    | zero => exact .inr rfl
    | succ n =>
      refine .inl ?_
      have hcall : checkCall paren' callee args.length m = .done () m := by
        simp only [checkCall, harity, if_true]
      have hdepth : (checkDepth rules paren' m).halt? = some (.overflow paren') := by
        rw [checkDepth, if_pos hfull]
        rfl
      simp only [Task.halt?]
      exact halt_second hcall (halt_first hdepth)
  | _ => exact hblocked.elim

/-- **A call without room ends the run from which it is reached.** -/
theorem Nests.overflow (hnests : Nests rules n t m opened t' m')
    (hblocked : t'.Blocked rules paren m') :
    t.halt? rules n m = some (.overflow paren) ∨ t.halt? rules n m = some .exhausted := by
  induction hnests with
  | here => exact hblocked.halt?
  | call hcall _ ih => exact (ih hblocked).imp hcall.halt? hcall.halt?

theorem NestsDuring.overflow (hduring : NestsDuring rules bound p m opened t m')
    (hblocked : t.Blocked rules paren m') :
    (interpret rules bound p m).halt? = some (.overflow paren) ∨
      (interpret rules bound p m).halt? = some .exhausted := by
  induction hduring with
  | @first s rest m opened t m' hreach =>
    exact (hreach.overflow hblocked).imp
      (halt_first (f := fun _ => interpret rules bound rest))
      (halt_first (f := fun _ => interpret rules bound rest))
  | @next s rest m c m₁ opened t m' hdone _ ih =>
    exact (ih hblocked).imp (halt_second (f := fun _ => interpret rules bound rest) hdone)
      (halt_second (f := fun _ => interpret rules bound rest) hdone)

/-- **A run that overflows reaches a call without room.** -/
theorem exists_nests_of_overflow (hhalt : t.halt? rules n m = some (.overflow paren)) :
    ∃ opened t' m', Nests rules n t m opened t' m' ∧ t'.Blocked rules paren m' := by
  induction n generalizing t m with
  | zero =>
    -- with no bound left nothing is called, and a use of a name never overflows
    cases t
    case read name address => exact (Plain.read address).elim hhalt
    case write name address v => exact (Plain.write address v).elim hhalt
    all_goals cases hhalt
  | succ n ih =>
    rcases Task.blocked_or_calls hhalt with hblocked | ⟨t', m', hcall, hhalt'⟩
    · exact ⟨0, t, m, .here, hblocked⟩
    · obtain ⟨opened, t'', m'', hnests, hblocked⟩ := ih hhalt'
      exact ⟨_, t'', m'', .call hcall hnests, hblocked⟩

theorem exists_nestsDuring_of_overflow
    (hhalt : (interpret rules bound p m).halt? = some (.overflow paren)) :
    ∃ opened t m', NestsDuring rules bound p m opened t m' ∧ t.Blocked rules paren m' := by
  induction p generalizing m with
  | nil => exact (Plain.pure ()).elim hhalt
  | cons s rest ih =>
    rcases halt?_bind (f := fun _ => interpret rules bound rest) hhalt with
      hfirst | ⟨c, m₁, hdone, hrest⟩
    · obtain ⟨opened, t, m', hnests, hblocked⟩ :=
        exists_nests_of_overflow (t := .execute s) hfirst
      exact ⟨opened, t, m', .first hnests, hblocked⟩
    · obtain ⟨opened, t, m', hduring, hblocked⟩ := ih hrest
      exact ⟨opened, t, m', .next hdone hduring, hblocked⟩

/-- **A run overflows exactly where it comes to a call without room**: so
many of its calls are open there that, with those open before it, the limit
is reached. -/
theorem overflow_iff (hended : (interpret rules bound p m).Ended) :
    (interpret rules bound p m).halt? = some (.overflow paren) ↔
      ∃ opened callee args m',
        NestsDuring rules bound p m opened (.apply paren callee args) m' ∧
        m'.heap.arity? callee = some args.length ∧ rules.maxDepth ≤ m.depth + opened := by
  constructor
  · intro hhalt
    obtain ⟨opened, t, m', hduring, hblocked⟩ := exists_nestsDuring_of_overflow hhalt
    cases t with
    | apply paren' callee args =>
      obtain ⟨rfl, harity, hfull⟩ := hblocked
      rw [hduring.depth_eq] at hfull
      exact ⟨opened, callee, args, m', hduring, harity, hfull⟩
    | _ => exact hblocked.elim
  · rintro ⟨opened, callee, args, m', hduring, harity, hfull⟩
    rw [← hduring.depth_eq] at hfull
    exact (hduring.overflow ⟨rfl, harity, hfull⟩).resolve_right hended

/-! ## The limit and the run -/

/-- A run under a limit within a bound is the run under a higher limit within
a higher bound, or it was stopped on the way. -/
theorem interpret_shortened {limit limit' bound' : Nat} (hlimit : limit ≤ limit')
    (hbound : bound ≤ bound') :
    Shortened (fun k => k = .exhausted ∨ ∃ paren, k = .overflow paren)
      (interpret { rules with maxDepth := limit } bound p m)
      (interpret { rules with maxDepth := limit' } bound' p m) := by
  obtain ⟨more, rfl⟩ := Nat.exists_eq_add_of_le hbound
  have hlimited : Limited (fun k => k = .exhausted ∨ ∃ paren, k = .overflow paren)
      limit limit' := ⟨hlimit, fun _ paren => .inr ⟨paren, rfl⟩⟩
  have hwithin : CurtailsWithin _ { rules with maxDepth := limit } limit' bound (bound + more) :=
    curtailsWithin_add hlimited (.inl rfl) more bound
  exact (interpret_curtails hwithin p).shortened m

/-- Within one bound only the limit tells two runs apart. -/
theorem interpret_shortened_limit {limit limit' : Nat} (hlimit : limit ≤ limit') :
    Shortened (fun k => ∃ paren, k = .overflow paren)
      (interpret { rules with maxDepth := limit } bound p m)
      (interpret { rules with maxDepth := limit' } bound p m) := by
  have hlimited : Limited (fun k => ∃ paren, k = .overflow paren) limit limit' :=
    ⟨hlimit, fun _ paren => ⟨paren, rfl⟩⟩
  have hwithin : CurtailsWithin _ { rules with maxDepth := limit } limit' bound bound :=
    curtailsWithin hlimited bound
  exact (interpret_curtails hwithin p).shortened m

/-- What was printed first is the beginning of the output. -/
theorem output_of_suffix {m m' : Machine} (h : m.printed <:+ m'.printed) :
    m.output <+: m'.output := by
  obtain ⟨later, hlater⟩ := h
  unfold Machine.output
  rw [← hlater, List.reverse_append, List.flatMap_append]
  exact List.prefix_append _ _

/-- The outcome is that of a call beyond the limit. -/
def Overflows (o : Outcome α) : Prop := ∃ paren, o.halt? = some (.overflow paren)

/-- **The limit on nested calls only cuts runs short.** Take a program in a
machine under two limits. Within a bound in which the run under the higher
one ends, the run under the lower one ends too. If that does not overflow,
the two outcomes are the same, with the same heap, output and answer or
error; and if it does, its output is the beginning of the other one's,
within every bound that is no lower. What a run ends in is the same within
every higher bound. And a run overflows at a parenthesis exactly if it comes
to the call there, of whatever can be called with so many arguments, when
with the calls of the run that are open the limit is reached. -/
theorem limit_cuts_short (rules : Rules) (p : Program Address) (m : Machine) (limit limit' : Nat)
    (hlimit : limit ≤ limit') :
    let run := fun limit bound => interpret { rules with maxDepth := limit } bound p m
    (∀ bound, (run limit' bound).Ended → (run limit bound).Ended) ∧
    (∀ bound, ¬ Overflows (run limit bound) → run limit bound = run limit' bound) ∧
    (∀ bound bound', bound ≤ bound' → Overflows (run limit bound) →
      (run limit bound).machine.output <+: (run limit' bound').machine.output) ∧
    (∀ bound bound', bound ≤ bound' → (run limit bound).Ended →
      run limit bound' = run limit bound) ∧
    ∀ bound paren, (run limit bound).Ended →
      ((run limit bound).halt? = some (.overflow paren) ↔
        ∃ opened callee args m',
          NestsDuring { rules with maxDepth := limit } bound p m opened
            (.apply paren callee args) m' ∧
          m'.heap.arity? callee = some args.length ∧ limit ≤ m.depth + opened) := by
  intro run
  have hsteps : ∀ bound, Shortened (fun k => ∃ paren, k = .overflow paren)
      (run limit bound) (run limit' bound) := fun bound => interpret_shortened_limit hlimit
  refine ⟨fun bound hended hhalt => ?_, fun bound hno => ?_, fun bound bound' hbound _ => ?_,
    fun bound bound' hbound hended => interpret_of_le hbound hended,
    fun bound paren hended => overflow_iff hended⟩
  · rcases hsteps bound with hsame | ⟨k, hk, ⟨paren, rfl⟩, -⟩
    · rw [hsame] at hhalt
      exact hended hhalt
    · rw [hk] at hhalt
      cases hhalt
  · rcases hsteps bound with hsame | ⟨k, hk, ⟨paren, rfl⟩, -⟩
    · exact hsame
    · exact absurd ⟨paren, hk⟩ hno
  · have hlonger : Shortened (fun k => k = .exhausted ∨ ∃ paren, k = .overflow paren)
        (run limit bound) (run limit' bound') := interpret_shortened hlimit hbound
    rcases hlonger with hsame | ⟨-, -, -, hprinted⟩
    · refine ⟨[], ?_⟩
      rw [List.append_nil, hsame]
    · exact output_of_suffix hprinted

/-- A function that prints and calls itself, with room for one call and for
two: the first run overflows inside the one call that is open, and has
printed what the second prints first. -/
theorem limit_cuts_short_recursion :
    let p := Source.compiled (Text.ofString "function f()\x7bprint 1;f();\x7df();")
    let run := fun limit => interpret { maxDepth := limit } 20 p (Machine.start [])
    let paren : Token := ⟨.rightParen, Text.ofString ")", .nil, 1⟩
    1 ≤ 2 ∧ (run 1).machine.output = Text.ofString "1\n" ∧
      (run 2).machine.output = Text.ofString "1\n1\n" ∧
      (run 1).machine.output <+: (run 2).machine.output ∧
      ∃ opened callee args m',
        NestsDuring { maxDepth := 1 } 20 p (Machine.start []) opened
          (.apply paren callee args) m' ∧
        m'.heap.arity? callee = some args.length ∧ 1 ≤ 0 + opened := by
  intro p run paren
  obtain ⟨-, -, hprefix, -, hcalls⟩ := limit_cuts_short { maxDepth := 1 } p (Machine.start []) 1 2
    (by decide)
  have hhalt : (run 1).halt? = some (.overflow paren) := by decide +kernel
  have hended : (run 1).Ended := by
    rw [Outcome.Ended, hhalt]
    nofun
  exact ⟨by decide, by decide +kernel, by decide +kernel,
    hprefix 20 20 (Nat.le_refl _) ⟨paren, hhalt⟩,
    (hcalls 20 paren hended).1 hhalt⟩

end Eval

end TanLang
