import TanLang.Proofs.Evaluation.WritingOut
import TanLang.Proofs.Scoping.WritingOut
import TanLang.Proofs.Session.Provenance
import TanLang.Proofs.Session.Rejection
/-!
# Sessions — `for` loops written out mean the same

A session writes out the `for` loops of each unit before it resolves and
executes it. The units could as well be resolved and executed with their
loops as they stand. **Either way the same units are accepted**, and those
that are executed print the same, end the same and leave the same globals.

The two ways of execution do not take the same of the bound on the
recursion, for a loop written out is nested more deeply. So they are compared
where they have ended, and a unit ends in one way if and only if it ends in
the other.
-/

namespace TanLang

/-! ## Acceptance -/

namespace Source

variable {src : Text}

/-- The program that a source spells, its `for` loops in some form, with its
distances and what is wrong with its scoping. -/
def resolved (form : Program Unit → Program Unit) (src : Text) :
    Scoping.Resolved (Program Address) :=
  Scoping.resolve (form (Program.read (tokens src)).program)

/-- Whether there is nothing to report about a source before it is executed,
if its `for` loops are put into some form. -/
def accepted (form : Program Unit → Program Unit) (src : Text) : Bool :=
  (reports src).isEmpty && (Program.reports (tokens src)).isEmpty &&
    (resolved form src).issues.isEmpty

theorem accepted_iff {form : Program Unit → Program Unit} : accepted form src = true ↔
    reports src = [] ∧ Program.reports (tokens src) = [] ∧ (resolved form src).issues = [] := by
  simp only [accepted, Bool.and_eq_true, List.isEmpty_iff, and_assoc]

/-- A session accepts a unit with its `for` loops written out. -/
theorem accepted_desugarAll : accepted Stmt.desugarAll src = true ↔ Compiles src :=
  accepted_iff.trans ⟨fun h => ⟨h.1, h.2.1, h.2.2⟩, fun h => ⟨h.scanned, h.parsed, h.resolved⟩⟩

/-- **What was parsed without a report is resolved the same** with its `for`
loops written out. -/
theorem resolved_desugarAll (hparsed : Program.reports (tokens src) = []) :
    (resolved Stmt.desugarAll src).issues = (resolved id src).issues ∧
      Stmt.WrittenOutAll [] (resolved id src).value (resolved Stmt.desugarAll src).value := by
  have hissues : (Program.read (tokens src)).issues = [] := List.map_eq_nil_iff.1 hparsed
  exact Scoping.resolve_desugarAll (Program.derived_of_read hissues).1.placed

theorem accepted_eq (src : Text) : accepted Stmt.desugarAll src = accepted id src := by
  rw [Bool.eq_iff_iff, accepted_iff, accepted_iff]
  refine and_congr_right fun _ => and_congr_right fun hparsed => ?_
  rw [(resolved_desugarAll hparsed).1]

end Source

/-! ## The first machine -/

namespace Heap

/-- A heap without functions and classes matches itself. -/
theorem Matches.refl {h : Heap} (hrooted : h.Rooted) (hfunctions : h.functions = #[])
    (hclasses : h.classes = #[]) : Matches id h h where
  scopes s scope hs := ⟨scope, hs, rfl⟩
  injective _ _ _ _ hsame := hsame
  globals := rfl
  left := hrooted
  right := hrooted
  functionCount := rfl
  functions f := by
    have hnone : h.function? f = none := by simp [function?, hfunctions]
    rw [hnone]
    exact .none
  classCount := rfl
  classes c := by
    have hnone : h.class? c = none := by simp [class?, hclasses]
    rw [hnone]
    exact .none
  natives := rfl
  instances := rfl
  registry := rfl

end Heap

theorem Machine.rooted_install (natives : List Native) {h : Heap} (hrooted : h.Rooted) :
    (install h natives).Rooted := by
  induction natives generalizing h with
  | nil => exact hrooted
  | cons native rest ih =>
    have hnative : h.Keeps (h.newNative native).1 := .of_scopes_eq rfl
    exact ih (hrooted.keep (hnative.trans (.define globals native.name _)))

namespace Session

open Eval

/-! ## Units one after the other -/

/-- What units come to one after the other: the outcome of each that is
executed, and the machine after them. -/
structure Series where
  /-- The outcomes; none for a unit that is rejected. -/
  outcomes : List (Option (Outcome Unit))
  /-- The machine, ready for the next unit. -/
  machine : Machine

/-- **Units run one after the other** within a bound on the recursion, their
`for` loops in some form. -/
def series (rules : Rules) (form : Program Unit → Program Unit) (bound : Nat) :
    Machine → List Text → Series
  | m, [] => ⟨[], m⟩
  | m, u :: us =>
    if Source.accepted form u then
      let o := interpret rules bound (Source.resolved form u).value m
      let rest := series rules form bound { o.machine with printed := [] } us
      ⟨some o :: rest.outcomes, rest.machine⟩
    else
      let rest := series rules form bound m us
      ⟨none :: rest.outcomes, rest.machine⟩

/-- The globals of a machine, each with its value and the value's text. -/
def shownGlobals (m : Machine) : List (Text × Value × Text) :=
  (m.heap.listing Machine.globals).map fun g => (g.1, g.2, m.heap.text g.2)

/-- **Two executions look the same**: they end the same, with the same
runtime error if there is one, and have printed the same. -/
structure LooksLike (o o' : Outcome Unit) : Prop where
  ending : endingOf o' = endingOf o
  output : o'.machine.output = o.machine.output

/-- What a session gives of a unit is what the unit comes to. -/
inductive Gives : Option (Outcome Unit) → UnitRun → Prop where
  | rejected {r : UnitRun} (hstatus : r.status = .compileError) (houtput : r.output = []) :
      Gives none r
  | executed {r : UnitRun} {o : Outcome Unit} (hstatus : r.status = (endingOf o).status)
      (hending : r.ending = endingOf o) (houtput : r.output = o.machine.output)
      (hreports : r.reports = (endingOf o).reports) : Gives (some o) r

namespace Series

/-- No unit has run out of the bound. -/
def Ended (t : Series) : Prop := ∀ o ∈ t.outcomes, ∀ a ∈ o, a.Ended

instance (t : Series) : Decidable t.Ended :=
  inferInstanceAs (Decidable (∀ o ∈ t.outcomes, ∀ a ∈ o, a.Ended))

/-- **Two series look the same**: the same units were rejected, the others
look the same, and the same globals are left. -/
structure LooksLike (t t' : Series) : Prop where
  outcomes : List.Forall₂ (Option.Rel Session.LooksLike) t.outcomes t'.outcomes
  globals : shownGlobals t'.machine = shownGlobals t.machine

/-- A series of units comes to this in the end, and did so already if it has
ended within the bound given. -/
structure ComesTo (x : Nat → Series) (n : Nat) (t : Series) : Prop where
  already : (x n).Ended → x n = t
  settles : ∃ enough, ∀ k, enough ≤ k → x k = t

end Series

section

variable {rules : Rules} {form : Program Unit → Program Unit} {bound n : Nat} {m m' : Machine}
  {u : Text} {us : List Text} {t : Series}

theorem series_executed (h : Source.accepted form u = true) {o : Outcome Unit}
    (ho : interpret rules bound (Source.resolved form u).value m = o) :
    series rules form bound m (u :: us) =
      ⟨some o :: (series rules form bound { o.machine with printed := [] } us).outcomes,
        (series rules form bound { o.machine with printed := [] } us).machine⟩ := by
  rw [series, if_pos h, ho]

theorem series_rejected (h : ¬ Source.accepted form u = true) :
    series rules form bound m (u :: us) = ⟨none :: (series rules form bound m us).outcomes,
      (series rules form bound m us).machine⟩ := by
  rw [series, if_neg h]

/-- The first unit has ended if all have, and so have the others after it. -/
theorem ended_of_executed (h : Source.accepted form u = true)
    (hended : (series rules form n m (u :: us)).Ended) :
    (interpret rules n (Source.resolved form u).value m).Ended ∧
      (series rules form n
        { (interpret rules n (Source.resolved form u).value m).machine with printed := [] }
        us).Ended := by
  rw [series_executed h rfl] at hended
  exact ⟨hended _ List.mem_cons_self _ rfl, fun o ho => hended o (List.mem_cons_of_mem _ ho)⟩

theorem ended_of_rejected (h : ¬ Source.accepted form u = true)
    (hended : (series rules form n m (u :: us)).Ended) : (series rules form n m us).Ended := by
  rw [series_rejected h] at hended
  exact fun o ho => hended o (List.mem_cons_of_mem _ ho)

theorem comesTo_executed (h : Source.accepted form u = true) {o : Outcome Unit}
    (ho : ComesTo (fun i => interpret rules i (Source.resolved form u).value) n m o)
    (ht : Series.ComesTo (fun i => series rules form i { o.machine with printed := [] } us) n t) :
    Series.ComesTo (fun i => series rules form i m (u :: us)) n
      ⟨some o :: t.outcomes, t.machine⟩ where
  already hended := by
    obtain ⟨hfirst, hrest⟩ := ended_of_executed h hended
    have hsame := ho.already hfirst
    rw [hsame] at hrest
    have hlater := ht.already hrest
    rw [series_executed h hsame, hlater]
  settles := by
    obtain ⟨enough, hfirst⟩ := ho.settles
    obtain ⟨enough', hlater⟩ := ht.settles
    refine ⟨max enough enough', fun i hi => ?_⟩
    rw [series_executed h (hfirst i (by omega)), hlater i (by omega)]

theorem comesTo_rejected (h : ¬ Source.accepted form u = true)
    (ht : Series.ComesTo (fun i => series rules form i m us) n t) :
    Series.ComesTo (fun i => series rules form i m (u :: us)) n
      ⟨none :: t.outcomes, t.machine⟩ where
  already hended := by
    have hlater := ht.already (ended_of_rejected h hended)
    rw [series_rejected h, hlater]
  settles := by
    obtain ⟨enough, hlater⟩ := ht.settles
    refine ⟨enough, fun i hi => ?_⟩
    rw [series_rejected h, hlater i hi]

/-! ## Both ways side by side -/

/-- **The machines of both ways between units.** -/
structure Alongside (m m' : Machine) : Prop where
  beside : ∃ σ, Beside σ m m'
  left : m.active = Machine.globals
  right : m'.active = Machine.globals

theorem Alongside.shownGlobals (h : Alongside m m') : shownGlobals m' = shownGlobals m := by
  obtain ⟨σ, hbeside⟩ := h.beside
  simp only [Session.shownGlobals, hbeside.heap.listing_globals, hbeside.heap.text]

/-- **One unit.** If it has ended in either way, it comes to outcomes that
look the same, and leaves machines for the next one. -/
theorem Alongside.interpret (h : Alongside m m') (hrules : rules.addressing = .distance)
    {p p' : Program Address} (hcode : Stmt.WrittenOutAll [] p p')
    (hended : (interpret rules n p m).Ended ∨ (interpret rules n p' m').Ended) :
    ∃ o o', LooksLike o o' ∧
      Alongside { o.machine with printed := [] } { o'.machine with printed := [] } ∧
      ComesTo (fun i => Eval.interpret rules i p) n m o ∧
      ComesTo (fun i => Eval.interpret rules i p') n m' o' := by
  obtain ⟨σ, hbeside⟩ := h.beside
  have hpaired : Heap.Paired σ m.heap m'.heap [] m.active m'.active := by
    rw [h.left, h.right]
    exact .globals
  obtain ⟨o, o', hmatched, ho, ho'⟩ :=
    interpret_meets hrules n hcode σ m m' hbeside hpaired hended
  obtain ⟨σ₁, hbrought⟩ := hmatched.brought
  refine ⟨o, o', ⟨?_, ?_⟩, ⟨⟨σ₁, ?_⟩, ?_, ?_⟩, ho, ho'⟩
  · cases hmatched <;> rfl
  · simp only [Machine.output, hbrought.beside.printed]
  · exact ⟨hbrought.beside.heap, hbrought.beside.depth, rfl⟩
  · exact hbrought.left.trans h.left
  · exact hbrought.right.trans h.right

/-- **All the units.** If they have ended in either way, both ways come to
series that look the same. -/
theorem Alongside.series (hrules : rules.addressing = .distance) (us : List Text) :
    ∀ {m m' : Machine}, Alongside m m' →
      (series rules id n m us).Ended ∨ (series rules Stmt.desugarAll n m' us).Ended →
      ∃ t t' : Series, t.LooksLike t' ∧
        Series.ComesTo (fun i => Session.series rules id i m us) n t ∧
        Series.ComesTo (fun i => Session.series rules Stmt.desugarAll i m' us) n t' := by
  induction us with
  | nil =>
    intro m m' h _
    exact ⟨⟨[], m⟩, ⟨[], m'⟩, ⟨.nil, h.shownGlobals⟩, ⟨fun _ => rfl, 0, fun _ _ => rfl⟩,
      ⟨fun _ => rfl, 0, fun _ _ => rfl⟩⟩
  | cons u us ih =>
    intro m m' h hended
    have hsame := Source.accepted_eq u
    by_cases haccepted : Source.accepted id u = true
    · have haccepted' : Source.accepted Stmt.desugarAll u = true := hsame.trans haccepted
      have hcode := (Source.resolved_desugarAll (Source.accepted_iff.1 haccepted).2.1).2
      obtain ⟨o, o', hlooks, hnext, ho, ho'⟩ := h.interpret hrules hcode
        (hended.imp (fun h => (ended_of_executed haccepted h).1)
          fun h => (ended_of_executed haccepted' h).1)
      -- whichever way has ended, the units after this one start where it ended
      have hlater : (Session.series rules id n { o.machine with printed := [] } us).Ended ∨
          (Session.series rules Stmt.desugarAll n { o'.machine with printed := [] } us).Ended := by
        refine hended.imp (fun hended => ?_) fun hended => ?_
        · obtain ⟨hfirst, hrest⟩ := ended_of_executed haccepted hended
          rwa [ho.already hfirst] at hrest
        · obtain ⟨hfirst, hrest⟩ := ended_of_executed haccepted' hended
          rwa [ho'.already hfirst] at hrest
      obtain ⟨t, t', hrest, ht, ht'⟩ := ih hnext hlater
      exact ⟨⟨some o :: t.outcomes, t.machine⟩, ⟨some o' :: t'.outcomes, t'.machine⟩,
        ⟨.cons (.some hlooks) hrest.outcomes, hrest.globals⟩,
        comesTo_executed haccepted ho ht, comesTo_executed haccepted' ho' ht'⟩
    · have haccepted' : ¬ Source.accepted Stmt.desugarAll u = true := by rwa [hsame]
      obtain ⟨t, t', hrest, ht, ht'⟩ := ih h
        (hended.imp (ended_of_rejected haccepted) (ended_of_rejected haccepted'))
      exact ⟨⟨none :: t.outcomes, t.machine⟩, ⟨none :: t'.outcomes, t'.machine⟩,
        ⟨.cons .none hrest.outcomes, hrest.globals⟩,
        comesTo_rejected haccepted ht, comesTo_rejected haccepted' ht'⟩

end

/-- Both ways start with the same machine. -/
theorem Alongside.start (limit : Int) (natives : List Native) (showSource : Bool)
    (clock : Clock) :
    Alongside (ofNatives limit natives showSource clock).fresh
      (ofNatives limit natives showSource clock).fresh where
  beside := by
    obtain ⟨hfunctions, hclasses⟩ := Machine.install_heap natives (Heap.newScope {} none).1
    have hrooted := Machine.rooted_install natives
      (h := (Heap.newScope {} none).1) ⟨⟨.empty, none⟩, rfl, rfl⟩
    exact ⟨id, .refl hrooted hfunctions hclasses, rfl, rfl⟩
  left := rfl
  right := rfl

/-! ## What a session gives -/

/-- **A session runs its units with their `for` loops written out**, within
its own bound. -/
theorem gives_series (us : List Text) : ∀ {s : Session}, s.tally.hadError = false →
    List.Forall₂ Gives (series s.rules Stmt.desugarAll recursionBound s.fresh us).outcomes
        (Prompt.runLines s us) ∧
      shownGlobals (Prompt.after s us).machine =
        shownGlobals (series s.rules Stmt.desugarAll recursionBound s.fresh us).machine := by
  induction us with
  | nil => exact fun _ => ⟨.nil, rfl⟩
  | cons u us ih =>
    intro s hclear
    have hafter : Prompt.after s (u :: us) = Prompt.after (s.run u).1.reset us := rfl
    have hlines : Prompt.runLines s (u :: us) =
        (s.run u).2 :: Prompt.runLines (s.run u).1.reset us := rfl
    obtain ⟨hgives, hglobals⟩ := ih (s := (s.run u).1.reset) rfl
    by_cases haccepted : Source.accepted Stmt.desugarAll u = true
    · obtain ⟨hmachine, hrules, houtput, hending, hstatus, hreports⟩ :=
        run_spec hclear (Source.accepted_desugarAll.1 haccepted)
      have hnext : (s.run u).1.reset.fresh = { (s.outcome u).machine with printed := [] } := by
        rw [← hmachine]
        rfl
      have hrules' : (s.run u).1.reset.rules = s.rules := hrules
      rw [hnext, hrules'] at hgives hglobals
      rw [hlines, hafter, series_executed haccepted (o := s.outcome u) rfl]
      exact ⟨.cons (.executed hstatus hending houtput hreports) hgives, hglobals⟩
    · obtain ⟨⟨tally, hsession⟩, hstatus, houtput, -⟩ :=
        run_rejected (s := s) (.inr fun h => haccepted (Source.accepted_desugarAll.2 h))
      rw [hlines, hafter, series_rejected haccepted]
      rw [hsession] at hgives hglobals ⊢
      exact ⟨.cons (.rejected hstatus houtput) hgives, hglobals⟩

/-- **Writing out `for` loops preserves meaning.** Take a session with any
natives, and any units. Resolution reports the same issues about a unit that
was parsed, whether its `for` loops are written out or left as they stand. If
the units have ended within some bound, run one after the other with their
loops as they stand, then within every bound that is large enough they look
the same with the loops written out; and the other way round. Of the units
with their loops written out, the session gives what they come to within its
own bound. -/
theorem for_loops_written_out (limit : Int) (natives : List Native) (showSource : Bool)
    (clock : Clock) (us : List Text) :
    let s := ofNatives limit natives showSource clock
    let direct := fun bound => series s.rules id bound s.fresh us
    let written := fun bound => series s.rules Stmt.desugarAll bound s.fresh us
    (∀ u, Program.reports (Source.tokens u) = [] →
      (Source.resolved Stmt.desugarAll u).issues = (Source.resolved id u).issues) ∧
    (∀ bound, (direct bound).Ended →
      ∃ enough, ∀ bound', enough ≤ bound' → (direct bound).LooksLike (written bound')) ∧
    (∀ bound, (written bound).Ended →
      ∃ enough, ∀ bound', enough ≤ bound' → (direct bound').LooksLike (written bound)) ∧
    List.Forall₂ Gives (written recursionBound).outcomes (Prompt.runLines s us) ∧
    shownGlobals (Prompt.after s us).machine = shownGlobals (written recursionBound).machine := by
  intro s direct written
  have hstart : Alongside s.fresh s.fresh := .start limit natives showSource clock
  have hrules : s.rules.addressing = .distance := rfl
  refine ⟨fun u hparsed => (Source.resolved_desugarAll hparsed).1, fun bound hended => ?_,
    fun bound hended => ?_, gives_series us rfl⟩
  · obtain ⟨t, t', hlooks, ht, ht'⟩ := hstart.series hrules us (.inl hended)
    obtain ⟨enough, hwritten⟩ := ht'.settles
    refine ⟨enough, fun bound' hbound => ?_⟩
    have hdirect : direct bound = t := ht.already hended
    rw [hdirect, show written bound' = t' from hwritten bound' hbound]
    exact hlooks
  · obtain ⟨t, t', hlooks, ht, ht'⟩ := hstart.series hrules us (.inr hended)
    obtain ⟨enough, hdirect⟩ := ht.settles
    refine ⟨enough, fun bound' hbound => ?_⟩
    have hwritten : written bound = t' := ht'.already hended
    rw [hwritten, show direct bound' = t from hdirect bound' hbound]
    exact hlooks

/-- A loop that is left by a `return`, one whose rounds make closures, and
one that fails in its step: each way comes to what the other does. -/
theorem for_loops_written_out_closures :
    let s := Session.start 0 false false ⟨0, 0⟩
    let first := Text.ofString
      "function f() \x7b for (var i = 0; ; i = i + 1) \x7b if (i > 1) return i; print i; \x7d \x7d"
    let second := Text.ofString
      "var g; for (var i = 0; i < 2; i = i + 1) \x7b function h() \x7b return i; \x7d g = h; \x7d"
    let third := Text.ofString "print f() + g(); for (; true; nil + 1) print 9;"
    let direct := series s.rules id 40 s.fresh [first, second, third]
    direct.Ended ∧ direct.outcomes.map (fun o => o.map fun a => a.machine.output) =
        [some [], some [], some (Text.ofString "0\n1\n4\n9\n")] ∧
      ∃ enough, ∀ bound, enough ≤ bound →
        direct.LooksLike (series s.rules Stmt.desugarAll bound s.fresh [first, second, third]) := by
  intro s first second third direct
  have hdirect : direct.Ended ∧ direct.outcomes.map (fun o => o.map fun a => a.machine.output) =
      [some [], some [], some (Text.ofString "0\n1\n4\n9\n")] := by decide +kernel
  refine ⟨hdirect.1, hdirect.2, ?_⟩
  exact (for_loops_written_out 0 _ false ⟨0, 0⟩ [first, second, third]).2.1 40 hdirect.1

end Session

end TanLang
