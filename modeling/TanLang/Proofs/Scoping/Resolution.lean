import TanLang.Proofs.Scoping.Core
import TanLang.Proofs.Scoping.Order
/-!
# Scoping — what resolution leaves fits

Resolving a tree without an issue leaves code that fits the context it was
resolved in. Between statements every name declared so far can be read;
while the first value of a variable is resolved, only the variable itself
cannot, and reading it there is an issue. With `strict`, the tree also has
to be in order, and then each use is at home.
-/

namespace TanLang

/-- Of two values put under a name, the last one counts. -/
theorem Table.insert_insert {α : Type} (t : Table α) (x : Text) (a b : α) :
    (t.insert x a).insert x b = t.insert x b := by
  have hput : ∀ entries : List (Text × α),
      Table.putIn x b (Table.putIn x a entries) = Table.putIn x b entries := by
    intro entries
    induction entries with
    | nil => simp [Table.putIn]
    | cons e rest ih => by_cases he : e.1 = x <;> simp [Table.putIn, he, ih]
  simp only [Table.insert, hput]

namespace Scoping

/-! ## Steps -/

section

variable {α β : Type}

theorem Step.bind_run (s : Step α) (f : α → Step β) (frames : List Frame) :
    (s >>= f) frames = ⟨(f (s frames).value (s frames).frames).value,
      (f (s frames).value (s frames).frames).frames,
      (s frames).issues ++ (f (s frames).value (s frames).frames).issues⟩ := rfl

theorem Step.pure_run (a : α) (frames : List Frame) :
    (pure a : Step α) frames = ⟨a, frames, []⟩ := rfl

end

theorem checkReadable_run (name : Token) (frames : List Frame) :
    checkReadable name frames = ⟨(), frames,
      if innermost name.lexeme frames = some false then [⟨name, .ownInitial⟩] else []⟩ := rfl

theorem locate_run (name : Token) (frames : List Frame) :
    locate name frames = ⟨distance name.lexeme frames, frames, []⟩ := rfl

theorem complain_run (name : Token) (c : Complaint) (frames : List Frame) :
    complain name c frames = ⟨(), frames, [⟨name, c⟩]⟩ := rfl

theorem declare_run (name : Token) (frames : List Frame) :
    declare name frames = ⟨(), mark name.lexeme false frames,
      if (innermost name.lexeme frames).isSome then [⟨name, .alreadyDeclared⟩] else []⟩ := rfl

theorem define_run (name : Token) (frames : List Frame) :
    define name frames = ⟨(), mark name.lexeme true frames, []⟩ := rfl

theorem inScope_run {α : Type} (names : Frame) (s : Step α) (frames : List Frame) :
    inScope names s frames =
      ⟨(s (names :: frames)).value, (s (names :: frames)).frames.tail,
        (s (names :: frames)).issues⟩ := rfl

mutual

/-- Expressions declare nothing. -/
theorem frames_resolveExpr (around : Surroundings) (frames : List Frame) :
    ∀ e : Expr Unit, (resolveExpr around e frames).frames = frames
  | .literal _ _ => rfl
  | .grouping _ inner => frames_resolveExpr around frames inner
  | .unary _ operand => frames_resolveExpr around frames operand
  | .binary left _ right => by
    simp only [resolveExpr, Step.bind_run, Step.pure_run, frames_resolveExpr around frames left,
      frames_resolveExpr around frames right]
  | .ternary cond _ yes no => by
    simp only [resolveExpr, Step.bind_run, Step.pure_run, frames_resolveExpr around frames cond,
      frames_resolveExpr around frames yes, frames_resolveExpr around frames no]
  | .logical left _ right => by
    simp only [resolveExpr, Step.bind_run, Step.pure_run, frames_resolveExpr around frames left,
      frames_resolveExpr around frames right]
  | .var _ _ => rfl
  | .assign _ _ value => by
    simp only [resolveExpr, Step.bind_run, Step.pure_run, locate_run,
      frames_resolveExpr around frames value]
  | .call callee _ args => by
    simp only [resolveExpr, Step.bind_run, Step.pure_run, frames_resolveExpr around frames callee,
      frames_resolveExprs around frames args]
  | .get object _ => frames_resolveExpr around frames object
  | .set object _ value => by
    simp only [resolveExpr, Step.bind_run, Step.pure_run, frames_resolveExpr around frames value,
      frames_resolveExpr around frames object]
  | .receiver _ _ => by
    simp only [resolveExpr]
    split <;> rfl

/-- The same for expressions in a row. -/
theorem frames_resolveExprs (around : Surroundings) (frames : List Frame) :
    ∀ es : List (Expr Unit), (resolveExprs around es frames).frames = frames
  | [] => rfl
  | e :: rest => by
    simp only [resolveExprs, Step.bind_run, Step.pure_run, frames_resolveExpr around frames e,
      frames_resolveExprs around frames rest]

end

theorem frames_resolveOption (around : Surroundings) (frames : List Frame)
    (e : Option (Expr Unit)) : (resolveOption around e frames).frames = frames := by
  cases e with
  | none => rfl
  | some e => exact frames_resolveExpr around frames e

theorem frames_resolveSuperclass (name : Token) (frames : List Frame)
    (superclass : Option (Token × Unit)) :
    (resolveSuperclass name superclass frames).frames = frames := by
  cases superclass with
  | none => rfl
  | some named =>
    simp only [resolveSuperclass]
    split <;> rfl

theorem name_resolveRoutine (around : Surroundings) (decl : Routine (Stmt Unit))
    (frames : List Frame) : (resolveRoutine around decl frames).value.name = decl.name := by
  cases decl
  rfl

/-! ## Uses -/

/-- What holds of a context while an expression is resolved. -/
structure Open (strict : Prop) (Γ : Context) : Prop where
  outer : ∀ E ∈ Γ.tail, ∀ x b, E.marks.find? x = some b → b = true
  receiver : ∀ E ∈ Γ, E.marks.find? thisName ≠ some false
  allowed : ∀ E ∈ Γ, ∀ x, (E.marks.find? x).isSome = true → E.allowed x
  settled : strict → Γ.Settled thisName

variable {strict : Prop} {Γ : Context}

/-- The scope at a distance declares the name. -/
theorem find?_of_distance {x : Text} {d : Nat} (h : distance x Γ.frames = some d) :
    ∃ E, Γ[d]? = some E ∧ (E.marks.find? x).isSome = true := by
  obtain ⟨hd, hcontains, -⟩ := List.findIdx?_eq_some_iff_getElem.1 h
  have hlength : d < Γ.length := by simpa only [Context.frames, List.length_map] using hd
  refine ⟨Γ[d], List.getElem?_eq_getElem hlength, ?_⟩
  simpa only [Context.frames, List.getElem_map, Table.contains] using hcontains

/-- **A name in the making can only be in the innermost scope**; elsewhere
what is declared can be read. -/
theorem Open.marked {x : Text} {d : Nat} (hopen : Open strict Γ)
    (hd : distance x Γ.frames = some d) : ∃ E, Γ[d]? = some E ∧
      (E.marks.find? x = some true ∨ d = 0 ∧ E.marks.find? x = some false) := by
  obtain ⟨E, hE, hfind⟩ := find?_of_distance hd
  obtain ⟨b, hb⟩ := Option.isSome_iff_exists.1 hfind
  refine ⟨E, hE, ?_⟩
  cases b with
  | true => exact .inl hb
  | false =>
    cases Γ with
    | nil => cases hE
    | cons first outer =>
      cases d with
      | zero => exact .inr ⟨rfl, hb⟩
      | succ d =>
        have hmem : E ∈ outer := List.mem_of_getElem? hE
        cases hopen.outer E hmem x false hb

/-- **A use that is not of a name in the making can be read.** -/
theorem Open.reads {x : Text} (hopen : Open strict Γ) (hhead : innermost x Γ.frames ≠ some false)
    (hsettled : strict → Γ.Settled x) : Reads strict Γ x (distance x Γ.frames) where
  readable := by
    intro d hd
    obtain ⟨E, hE, hmark | ⟨rfl, hmark⟩⟩ := hopen.marked hd
    · exact ⟨E, hE, hmark⟩
    · cases Γ with
      | nil => cases hE
      | cons first outer =>
        obtain rfl := Option.some.inj hE
        exact absurd hmark hhead
  home := fun hstrict => ⟨rfl, hsettled hstrict⟩

theorem Open.writes {x : Text} (hopen : Open strict Γ) (hsettled : strict → Γ.Settled x) :
    Writes strict Γ x (distance x Γ.frames) where
  declarable := by
    intro d hd
    obtain ⟨E, hE, hfind⟩ := find?_of_distance hd
    exact ⟨E, hE, hopen.allowed E (List.mem_of_getElem? hE) x hfind⟩
  marked := fun d hd => hopen.marked hd
  home := fun hstrict => ⟨rfl, hsettled hstrict⟩

/-- The innermost scope never has `this` in the making. -/
theorem Open.innermost_receiver (hopen : Open strict Γ) :
    innermost thisName Γ.frames ≠ some false := by
  cases Γ with
  | nil => nofun
  | cons E outer => exact hopen.receiver E List.mem_cons_self

/-! ## Expressions -/

mutual

/-- **An expression resolved without an issue fits.** -/
theorem resolveExpr_fits (around : Surroundings) (hopen : Open strict Γ) : ∀ e : Expr Unit,
    e.Spelled → (strict → ∀ x ∈ e.mentioned, Γ.Settled x) →
    (resolveExpr around e Γ.frames).issues = [] →
    ExprFits strict Γ (resolveExpr around e Γ.frames).value
  | .literal _ _, _, _, _ => trivial
  | .grouping _ inner, hspelled, hsettled, hissues => by
    simp only [resolveExpr, Step.bind_run, Step.pure_run, List.append_nil] at hissues ⊢
    exact resolveExpr_fits around hopen inner hspelled hsettled hissues
  | .unary _ operand, hspelled, hsettled, hissues => by
    simp only [resolveExpr, Step.bind_run, Step.pure_run, List.append_nil] at hissues ⊢
    exact resolveExpr_fits around hopen operand hspelled hsettled hissues
  | .binary left _ right, hspelled, hsettled, hissues => by
    simp only [Expr.mentioned, List.mem_append] at hsettled
    simp only [resolveExpr, Step.bind_run, Step.pure_run, frames_resolveExpr, List.append_nil,
      List.append_eq_nil_iff] at hissues ⊢
    exact ⟨resolveExpr_fits around hopen left hspelled.1 (fun h x hx => hsettled h x (.inl hx))
        hissues.1,
      resolveExpr_fits around hopen right hspelled.2 (fun h x hx => hsettled h x (.inr hx))
        hissues.2⟩
  | .ternary cond _ yes no, hspelled, hsettled, hissues => by
    simp only [Expr.mentioned, List.mem_append] at hsettled
    simp only [resolveExpr, Step.bind_run, Step.pure_run, frames_resolveExpr, List.append_nil,
      List.append_eq_nil_iff] at hissues ⊢
    exact ⟨resolveExpr_fits around hopen cond hspelled.1
        (fun h x hx => hsettled h x (.inl (.inl hx))) hissues.1,
      resolveExpr_fits around hopen yes hspelled.2.1
        (fun h x hx => hsettled h x (.inl (.inr hx))) hissues.2.1,
      resolveExpr_fits around hopen no hspelled.2.2 (fun h x hx => hsettled h x (.inr hx))
        hissues.2.2⟩
  | .logical left _ right, hspelled, hsettled, hissues => by
    simp only [Expr.mentioned, List.mem_append] at hsettled
    simp only [resolveExpr, Step.bind_run, Step.pure_run, frames_resolveExpr, List.append_nil,
      List.append_eq_nil_iff] at hissues ⊢
    exact ⟨resolveExpr_fits around hopen left hspelled.1 (fun h x hx => hsettled h x (.inl hx))
        hissues.1,
      resolveExpr_fits around hopen right hspelled.2 (fun h x hx => hsettled h x (.inr hx))
        hissues.2⟩
  | .var name _, _, hsettled, hissues => by
    simp only [Expr.mentioned, List.mem_singleton] at hsettled
    simp only [resolveExpr, Step.bind_run, Step.pure_run, checkReadable_run, locate_run,
      List.append_nil, ite_eq_right_iff, reduceCtorEq, imp_false] at hissues ⊢
    exact hopen.reads hissues fun h => hsettled h _ rfl
  | .assign name _ value, hspelled, hsettled, hissues => by
    simp only [Expr.mentioned, List.mem_cons] at hsettled
    simp only [resolveExpr, Step.bind_run, Step.pure_run, frames_resolveExpr, locate_run,
      List.append_nil] at hissues ⊢
    exact ⟨hopen.writes fun h => hsettled h _ (.inl rfl),
      resolveExpr_fits around hopen value hspelled.2 (fun h x hx => hsettled h x (.inr hx)) hissues⟩
  | .call callee _ args, hspelled, hsettled, hissues => by
    simp only [Expr.mentioned, List.mem_append] at hsettled
    simp only [resolveExpr, Step.bind_run, Step.pure_run, frames_resolveExpr, List.append_nil,
      List.append_eq_nil_iff] at hissues ⊢
    exact ⟨resolveExpr_fits around hopen callee hspelled.1
        (fun h x hx => hsettled h x (.inl hx)) hissues.1,
      resolveExprs_fits around hopen args hspelled.2 (fun h x hx => hsettled h x (.inr hx))
        hissues.2⟩
  | .get object _, hspelled, hsettled, hissues => by
    simp only [resolveExpr, Step.bind_run, Step.pure_run, List.append_nil] at hissues ⊢
    exact resolveExpr_fits around hopen object hspelled hsettled hissues
  | .set object _ value, hspelled, hsettled, hissues => by
    simp only [Expr.mentioned, List.mem_append] at hsettled
    simp only [resolveExpr, Step.bind_run, Step.pure_run, frames_resolveExpr, List.append_nil,
      List.append_eq_nil_iff] at hissues ⊢
    exact ⟨resolveExpr_fits around hopen object hspelled.1
        (fun h x hx => hsettled h x (.inl hx)) hissues.2,
      resolveExpr_fits around hopen value hspelled.2 (fun h x hx => hsettled h x (.inr hx))
        hissues.1⟩
  | .receiver keyword _, hspelled, _, hissues => by
    have hthis : keyword.lexeme = thisName := hspelled
    simp only [resolveExpr] at hissues ⊢
    split at hissues
    · rename_i hclass
      -- `this` is not declared by any text, so it is settled in every scope
      have hreads := hopen.reads hopen.innermost_receiver hopen.settled
      rw [← hthis] at hreads
      simp only [hclass, if_true, Step.bind_run, Step.pure_run, locate_run]
      exact hreads
    · simp only [Step.bind_run, Step.pure_run, complain_run, List.append_nil, List.cons_ne_nil]
        at hissues

/-- The same for expressions in a row. -/
theorem resolveExprs_fits (around : Surroundings) (hopen : Open strict Γ) :
    ∀ es : List (Expr Unit), Expr.SpelledAll es →
    (strict → ∀ x ∈ Expr.mentionedAll es, Γ.Settled x) →
    (resolveExprs around es Γ.frames).issues = [] →
    ExprsFit strict Γ (resolveExprs around es Γ.frames).value
  | [], _, _, _ => trivial
  | e :: rest, hspelled, hsettled, hissues => by
    simp only [Expr.mentionedAll, List.mem_append] at hsettled
    simp only [resolveExprs, Step.bind_run, Step.pure_run, frames_resolveExpr, List.append_nil,
      List.append_eq_nil_iff] at hissues ⊢
    exact ⟨resolveExpr_fits around hopen e hspelled.1 (fun h x hx => hsettled h x (.inl hx))
        hissues.1,
      resolveExprs_fits around hopen rest hspelled.2 (fun h x hx => hsettled h x (.inr hx))
        hissues.2⟩

end

theorem resolveOption_fits (around : Surroundings) (hopen : Open strict Γ)
    {e : Option (Expr Unit)} (hspelled : Expr.SpelledOption e)
    (hsettled : strict → ∀ x ∈ Expr.mentionedOption e, Γ.Settled x)
    (hissues : (resolveOption around e Γ.frames).issues = []) :
    ExprOptionFits strict Γ (resolveOption around e Γ.frames).value := by
  cases e with
  | none => trivial
  | some e =>
    simp only [resolveOption, Step.bind_run, Step.pure_run, List.append_nil] at hissues ⊢
    exact resolveExpr_fits around hopen e hspelled hsettled hissues

/-! ## Contexts between statements -/

/-- What holds of a context between statements: every name that is declared
can be read. -/
structure Tidy (strict : Prop) (Γ : Context) : Prop where
  readable : ∀ E ∈ Γ, ∀ x b, E.marks.find? x = some b → b = true
  allowed : ∀ E ∈ Γ, ∀ x, (E.marks.find? x).isSome = true → E.allowed x
  settled : strict → Γ.Settled thisName

theorem Tidy.nil : Tidy strict [] := ⟨nofun, nofun, fun _ => nofun⟩

theorem Tidy.isOpen (h : Tidy strict Γ) : Open strict Γ where
  outer := fun E hE => h.readable E (List.mem_of_mem_tail hE)
  receiver := fun E hE hfind => Bool.false_ne_true (h.readable E hE _ _ hfind)
  allowed := h.allowed
  settled := h.settled

/-- A mark in a scope leaves the other names as settled as they were. -/
theorem Entry.Settled.insert {E : Entry} {x y : Text} {b : Bool} (h : E.Settled y) (hne : y ≠ x) :
    Entry.Settled { E with marks := E.marks.insert x b } y := by
  unfold Entry.Settled at h ⊢
  simpa only [Table.find?_insert_of_ne E.marks b hne] using h

theorem Context.Settled.mark {x y : Text} {b : Bool} (h : Γ.Settled y) (hne : y ≠ x) :
    (Γ.mark x b).Settled y := by
  cases Γ with
  | nil => exact h
  | cons E outer =>
    intro E' hE'
    rcases List.mem_cons.1 hE' with rfl | hE'
    · exact (h E List.mem_cons_self).insert hne
    · exact h E' (List.mem_cons_of_mem E hE')

/-- And a mark that is taken off does, too. -/
theorem Context.Settled.of_mark {x y : Text} {b : Bool} (h : (Γ.mark x b).Settled y)
    (hne : y ≠ x) : Γ.Settled y := by
  cases Γ with
  | nil => exact h
  | cons E outer =>
    intro E' hE'
    rcases List.mem_cons.1 hE' with rfl | hE'
    · have hhead := h _ List.mem_cons_self
      unfold Entry.Settled at hhead ⊢
      simpa only [Table.find?_insert_of_ne E'.marks b hne] using hhead
    · exact h E' (List.mem_cons_of_mem _ hE')

/-- Every scope of a context with a mark is one of the context, except for
the mark on the innermost. -/
theorem Context.mem_mark {x : Text} {b : Bool} {E : Entry} (h : E ∈ Γ.mark x b) :
    E ∈ Γ ∨ ∃ E' ∈ Γ.head?, E = { E' with marks := E'.marks.insert x b } := by
  cases Γ with
  | nil => cases h
  | cons first outer =>
    rcases List.mem_cons.1 h with rfl | h
    · exact .inr ⟨first, rfl, rfl⟩
    · exact .inl (List.mem_cons_of_mem first h)

/-- Marking a name that may be declared leaves only such names in a scope. -/
theorem Tidy.allowed_mark {x : Text} {b : Bool} (h : Tidy strict Γ) (hallows : Γ.Allows x) :
    ∀ E ∈ Γ.mark x b, ∀ y, (E.marks.find? y).isSome = true → E.allowed y := by
  intro E hE y hfind
  rcases Context.mem_mark hE with hE | ⟨E', hE', rfl⟩
  · exact h.allowed E hE y hfind
  · by_cases hyx : y = x
    · subst hyx
      exact hallows E' hE'
    · rw [Table.find?_insert_of_ne _ _ hyx] at hfind
      exact h.allowed E' (List.mem_of_mem_head? hE') y hfind

/-- A name that may be declared can be declared. -/
theorem Tidy.mark_true {x : Text} (h : Tidy strict Γ) (hallows : Γ.Allows x)
    (hthis : x ≠ thisName) : Tidy strict (Γ.mark x true) where
  readable := by
    intro E hE y b hfind
    rcases Context.mem_mark hE with hE | ⟨E', hE', rfl⟩
    · exact h.readable E hE y b hfind
    · by_cases hyx : y = x
      · subst hyx
        rw [Table.find?_insert_self] at hfind
        exact (Option.some.inj hfind).symm
      · rw [Table.find?_insert_of_ne _ _ hyx] at hfind
        exact h.readable E' (List.mem_of_mem_head? hE') y b hfind
  allowed := h.allowed_mark hallows
  settled := fun hstrict => (h.settled hstrict).mark hthis.symm

/-- While its first value is resolved, a name is declared and cannot be
read. -/
theorem Tidy.mark_false {x : Text} (h : Tidy strict Γ) (hallows : Γ.Allows x)
    (hthis : x ≠ thisName) : Open strict (Γ.mark x false) where
  outer := by
    rw [Context.tail_mark]
    exact h.isOpen.outer
  receiver := by
    intro E hE
    rcases Context.mem_mark hE with hE | ⟨E', hE', rfl⟩
    · exact h.isOpen.receiver E hE
    · rw [Table.find?_insert_of_ne _ _ hthis.symm]
      exact h.isOpen.receiver E' (List.mem_of_mem_head? hE')
  allowed := h.allowed_mark hallows
  settled := fun hstrict => (h.settled hstrict).mark hthis.symm

/-- A scope that is entered, whose names are all declared in its text. -/
theorem Tidy.cons {E : Entry} (h : Tidy strict Γ)
    (hreadable : ∀ x b, E.marks.find? x = some b → b = true)
    (hallowed : ∀ x, (E.marks.find? x).isSome = true → E.allowed x)
    (hsettled : strict → E.Settled thisName) : Tidy strict (E :: Γ) where
  readable := List.forall_mem_cons.2 ⟨hreadable, h.readable⟩
  allowed := List.forall_mem_cons.2 ⟨hallowed, h.allowed⟩
  settled := fun hstrict => List.forall_mem_cons.2 ⟨hsettled hstrict, h.settled hstrict⟩

/-- The scope around methods settles every name: it has `this` and can never
have another. -/
theorem settled_thisEntry (x : Text) : thisEntry.Settled x := by
  unfold Entry.Settled thisEntry thisFrame
  by_cases hx : x = thisName
  · subst hx
    exact fun _ => Table.find?_insert_self _ _ _
  · rintro (h | h)
    · exact absurd h hx
    · have hne : x ≠ Text.ofString "this" := hx
      rw [Table.find?_insert_of_ne _ _ hne] at h
      cases h

theorem Tidy.cons_thisEntry (h : Tidy strict Γ) : Tidy strict (thisEntry :: Γ) := by
  refine h.cons (fun x b hfind => ?_) (fun x hfind => ?_) fun _ => settled_thisEntry _
  · have hsome := settled_thisEntry x (.inr (by rw [hfind]; rfl))
    rw [hsome] at hfind
    exact (Option.some.inj hfind).symm
  · by_cases hx : x = thisName
    · exact hx
    · have hne : x ≠ Text.ofString "this" := hx
      unfold thisEntry thisFrame at hfind
      rw [Table.find?_insert_of_ne _ _ hne] at hfind
      cases hfind

/-! ## Declarations -/

theorem mark_mark (x : Text) (a b : Bool) (frames : List Frame) :
    mark x b (mark x a frames) = mark x b frames := by
  cases frames with
  | nil => rfl
  | cons frame outer => simp only [mark, Table.insert_insert]

/-- Parameters are declared one after the other. -/
theorem frames_declareAll (params : List Token) : ∀ (frame : Frame) (outer : List Frame),
    (declareAll params (frame :: outer)).frames =
      params.foldl (fun frame p => frame.insert p.lexeme true) frame :: outer := by
  induction params with
  | nil => exact fun _ _ => rfl
  | cons p rest ih =>
    intro frame outer
    simp only [declareAll, Step.bind_run, declare_run, define_run, mark_mark]
    exact ih _ outer

theorem find?_paramFrame_of_mem {params : List Token} {p : Token} (hp : p ∈ params) :
    (paramFrame params).find? p.lexeme = some true := by
  have hfold : ∀ (params : List Token) (frame : Frame),
      p ∈ params ∨ frame.find? p.lexeme = some true →
      (params.foldl (fun frame p => frame.insert p.lexeme true) frame).find? p.lexeme =
        some true := by
    intro params
    induction params with
    | nil => exact fun _ h => h.resolve_left List.not_mem_nil
    | cons q rest ih =>
      intro frame h
      refine ih _ ?_
      by_cases hq : p.lexeme = q.lexeme
      · rw [hq, Table.find?_insert_self]
        exact .inr rfl
      · rw [Table.find?_insert_of_ne _ _ hq]
        rcases h with h | h
        · rcases List.mem_cons.1 h with rfl | h
          · exact absurd rfl hq
          · exact .inl h
        · exact .inr h
  exact hfold params .empty (.inl hp)

/-- Resolution leaves alone what a statement declares. -/
theorem declared_resolveStmt (around : Surroundings) (frames : List Frame) (s : Stmt Unit) :
    (resolveStmt around s frames).value.declared = s.declared := by
  cases s with
  | forLoop keyword initial cond step body =>
    simp only [resolveStmt, inScopeIf]
    split <;> rfl
  | function decl =>
    obtain ⟨name, params, body⟩ := decl
    rfl
  | ret keyword value =>
    simp only [resolveStmt]
    split <;> rfl
  | _ => rfl

theorem tail_mark (x : Text) (b : Bool) (frames : List Frame) :
    (mark x b frames).tail = frames.tail := by
  cases frames <;> rfl

/-! ## Order -/

/-- **The names mentioned in statements are settled where they stand**: by
scopes further out already, and by the innermost one once the statements
before the mention are through. -/
structure Covered {α : Type} (Γ : Context) (ss : List (Stmt α)) : Prop where
  outer : ∀ x ∈ Stmt.mentionedAll ss, Context.Settled Γ.tail x
  declared : ∀ E ∈ Γ.head?, ∀ x, E.allowed x →
    E.marks.find? x = some true ∨ x ∈ Stmt.declares ss
  inOrder : Γ ≠ [] → Stmt.inOrder ss = true

/-- The context after a statement has the scopes of the one before. -/
theorem Context.tail_after {α : Type} (s : Stmt α) (Γ : Context) :
    (Γ.after s).tail = Γ.tail := by
  unfold Context.after
  split
  · rfl
  · exact Context.tail_mark _ _ _

theorem Context.after_eq_nil {α : Type} {s : Stmt α} (h : Γ = []) : Γ.after s = [] := by
  subst h
  unfold Context.after
  split <;> rfl

/-- In the innermost scope after a statement, what it declares can be read,
and nothing else has changed. -/
theorem Context.head_after {α : Type} {s : Stmt α} {E : Entry} (h : E ∈ (Γ.after s).head?) :
    ∃ E' ∈ Γ.head?, E.allowed = E'.allowed ∧
      ∀ x, E.marks.find? x = (if ∃ name ∈ s.declared, name.lexeme = x then some true
        else E'.marks.find? x) := by
  cases Γ with
  | nil =>
    rw [Context.after_eq_nil rfl] at h
    cases h
  | cons first outer =>
    unfold Context.after at h
    refine ⟨first, rfl, ?_⟩
    cases hs : s.declared with
    | none =>
      simp only [hs] at h
      cases h
      exact ⟨rfl, fun x => by simp⟩
    | some name =>
      simp only [hs] at h
      cases h
      refine ⟨rfl, fun x => ?_⟩
      by_cases hx : name.lexeme = x
      · subst hx
        rw [if_pos ⟨name, rfl, rfl⟩, Table.find?_insert_self]
      · have hnot : ¬ ∃ n ∈ some name, n.lexeme = x := by
          rintro ⟨n, hn, hnx⟩
          cases hn
          exact hx hnx
        rw [if_neg hnot, Table.find?_insert_of_ne _ _ (Ne.symm hx)]

section

variable {α : Type} {s : Stmt α} {ss : List (Stmt α)}

/-- What the first statement mentions is settled once it is through. -/
theorem Covered.first (h : Covered Γ (s :: ss)) (htidy : Tidy strict Γ) :
    ∀ x ∈ s.mentioned, (Γ.after s).Settled x := by
  intro x hx
  have houter := h.outer x (by rw [Stmt.mentionedAll]; exact List.mem_append_left _ hx)
  cases hΓ : Γ.after s with
  | nil => nofun
  | cons E outer =>
    refine List.forall_mem_cons.2 ⟨?_, ?_⟩
    · obtain ⟨E', hE', hallowed, hfind⟩ := Context.head_after (by rw [hΓ]; rfl)
      intro hor
      rw [hfind]
      split
      · rfl
      · rename_i hown
        rw [hfind, if_neg hown, hallowed] at hor
        rcases hor with hmay | hmarked
        · rcases h.declared E' hE' x hmay with hdone | hlater
          · exact hdone
          · -- declared by this statement or a later one, and mentioned already
            rcases Stmt.mem_declares_cons.1 hlater with hself | hlater
            · exact absurd hself hown
            · have hne : Γ ≠ [] := by
                rintro rfl
                cases hE'
              exact absurd hx ((Stmt.inOrder_cons.1 (h.inOrder hne)).2.1 x hlater)
        · obtain ⟨b, hb⟩ := Option.isSome_iff_exists.1 hmarked
          rw [hb, htidy.readable E' (List.mem_of_mem_head? hE') x b hb]
    · have htail : outer = Γ.tail := by
        rw [← Context.tail_after s Γ, hΓ]
        rfl
      rw [htail]
      exact houter

theorem Covered.rest (h : Covered Γ (s :: ss)) : Covered (Γ.after s) ss where
  outer := by
    intro x hx
    rw [Context.tail_after]
    exact h.outer x (by rw [Stmt.mentionedAll]; exact List.mem_append_right _ hx)
  declared := by
    intro E hE x hmay
    obtain ⟨E', hE', hallowed, hfind⟩ := Context.head_after hE
    rw [hfind]
    split
    · exact .inl rfl
    · rename_i hown
      rw [hallowed] at hmay
      rcases h.declared E' hE' x hmay with hdone | hlater
      · exact .inl hdone
      · exact .inr ((Stmt.mem_declares_cons.1 hlater).resolve_left hown)
  inOrder := by
    intro hne
    have hne' : Γ ≠ [] := fun hnil => hne (Context.after_eq_nil hnil)
    exact (Stmt.inOrder_cons.1 (h.inOrder hne')).2.2

theorem Covered.early (h : Covered Γ (s :: ss)) (hne : Γ ≠ []) :
    ∀ name ∈ s.declared, name.lexeme ∉ s.early :=
  (Stmt.inOrder_cons.1 (h.inOrder hne)).1

end

/-! ## Statements -/

/-- A superclass is not the class itself, so it is found as if the class had
not been declared yet. -/
theorem resolveSuperclass_fits {name : Token} {superclass : Option (Token × Unit)}
    (htidy : Tidy strict Γ)
    (hsettled : strict → ∀ x ∈ (superclass.map fun s => s.1.lexeme).toList,
      (Γ.mark name.lexeme true).Settled x)
    (hissues : (resolveSuperclass name superclass (Γ.mark name.lexeme true).frames).issues = []) :
    SuperclassFits strict Γ
      (resolveSuperclass name superclass (Γ.mark name.lexeme true).frames).value := by
  cases superclass with
  | none => trivial
  | some named =>
    obtain ⟨sup, mark⟩ := named
    simp only [Option.map_some, Option.toList_some, List.mem_singleton] at hsettled
    simp only [resolveSuperclass] at hissues ⊢
    by_cases hself : sup.lexeme = name.lexeme
    · simp only [hself, if_true, Step.bind_run, complain_run, List.cons_append,
        List.cons_ne_nil] at hissues
    · simp only [hself, if_false, Step.bind_run, Step.pure_run, checkReadable_run, locate_run,
        List.append_nil, ite_eq_right_iff, List.cons_ne_nil, imp_false] at hissues ⊢
      -- resolution looks the superclass up after declaring the class, evaluation
      -- reads it before; the two names differ, so nothing depends on it
      have hdistance : distance sup.lexeme (Γ.mark name.lexeme true).frames =
          distance sup.lexeme Γ.frames := by
        cases Γ with
        | nil => rfl
        | cons E outer =>
          simp only [Context.mark, Context.frames_cons, distance, List.findIdx?_cons,
            Table.contains, Table.find?_insert_of_ne _ _ hself]
      have hinnermost : innermost sup.lexeme Γ.frames ≠ some false := by
        cases Γ with
        | nil => nofun
        | cons E outer =>
          simp only [Context.mark, Context.frames_cons, innermost, List.head?_cons,
            Option.bind_some, Table.find?_insert_of_ne _ _ hself] at hissues
          exact hissues
      rw [SuperclassFits, hdistance]
      exact htidy.isOpen.reads hinnermost fun h => (hsettled h _ rfl).of_mark hself

/-- What core statements declare is not `this`. -/
theorem ne_thisName_of_mem_declares {α : Type} {ss : List (Stmt α)} (hcore : Stmt.CoreAll ss) :
    ∀ x ∈ Stmt.declares ss, x ≠ thisName := by
  induction ss with
  | nil => nofun
  | cons s rest ih =>
    intro x hx
    rcases Stmt.mem_declares_cons.1 hx with ⟨name, hname, rfl⟩ | hx
    · cases s with
      | varDecl _ _ =>
        cases hname
        exact hcore.1.1
      | function _ =>
        cases hname
        exact hcore.1.1
      | classDecl _ _ _ =>
        cases hname
        exact hcore.1.1
      | _ => cases hname
    · exact ih hcore.2 x hx

/-- A scope whose text declares the names given, with parameters read
already. -/
theorem Tidy.cons_body {α : Type} (htidy : Tidy strict Γ) {params : List Token}
    {body : List (Stmt α)} (hparams : ∀ p ∈ params, p.lexeme ≠ thisName)
    (hcore : Stmt.CoreAll body) :
    Tidy strict (⟨paramFrame params, fun x => strict →
      (∃ p ∈ params, p.lexeme = x) ∨ x ∈ Stmt.declares body⟩ :: Γ) := by
  -- `this` is a keyword, so neither the parameters nor the body declare it
  refine htidy.cons (fun x b hfind => (find?_paramFrame hfind).1) (fun x hfind _ => ?_)
    fun hstrict hor => ?_
  · obtain ⟨b, hb⟩ := Option.isSome_iff_exists.1 hfind
    exact .inl (find?_paramFrame hb).2
  · rcases hor with hmay | hfind
    · rcases hmay hstrict with ⟨p, hp, hthis⟩ | hdeclared
      · exact absurd hthis (hparams p hp)
      · exact absurd rfl (ne_thisName_of_mem_declares hcore _ hdeclared)
    · obtain ⟨b, hb⟩ := Option.isSome_iff_exists.1 hfind
      obtain ⟨-, p, hp, hthis⟩ := find?_paramFrame hb
      exact absurd hthis (hparams p hp)

/-- A body in order is covered in the scope made for it. -/
theorem covered_body {α : Type} (hstrict : strict) {params : List Token} {body : List (Stmt α)}
    (hsettled : ∀ x ∈ Stmt.mentionedAll body, Γ.Settled x) (horder : Stmt.inOrder body = true) :
    Covered (⟨paramFrame params, fun x => strict →
      (∃ p ∈ params, p.lexeme = x) ∨ x ∈ Stmt.declares body⟩ :: Γ) body where
  outer := hsettled
  declared := by
    rintro E hE x hmay
    cases hE
    rcases hmay hstrict with ⟨p, hp, rfl⟩ | hdeclared
    · exact .inl (find?_paramFrame_of_mem hp)
    · exact .inr hdeclared
  inOrder := fun _ => horder

theorem frames_after {α : Type} (s : Stmt α) (Γ : Context) :
    (Γ.after s).frames.tail = Γ.frames.tail := by
  unfold Context.after
  split
  · rfl
  · rw [Context.frames_mark, tail_mark]

mutual

/-- **A statement resolved without an issue fits**, and has declared its
name. -/
theorem resolveStmt_fits : ∀ (s : Stmt Unit) (around : Surroundings) (Γ : Context),
    Tidy strict Γ → s.Core → (∀ name ∈ s.declared, Γ.Allows name.lexeme) →
    (strict → ∀ x ∈ s.mentioned, (Γ.after s).Settled x) →
    (strict → Γ ≠ [] → ∀ name ∈ s.declared, name.lexeme ∉ s.early) →
    (strict → s.orderly = true) → (resolveStmt around s Γ.frames).issues = [] →
    (resolveStmt around s Γ.frames).frames = (Γ.after s).frames ∧
      StmtFits strict Γ (resolveStmt around s Γ.frames).value
  | .block brace body, around, Γ, htidy, hcore, _, hsettled, _, horderly, hissues => by
    simp only [Stmt.orderly, Bool.and_eq_true] at horderly
    simp only [resolveStmt, Step.bind_run, Step.pure_run, inScope_run, List.append_nil]
      at hissues ⊢
    have htidy' : Tidy strict (⟨paramFrame [], fun x => strict →
        (∃ p ∈ [], Token.lexeme p = x) ∨ x ∈ Stmt.declares body⟩ :: Γ) :=
      htidy.cons_body (fun p hp => absurd hp List.not_mem_nil) hcore
    obtain ⟨hframes, hbody⟩ := resolveStmts_fits body around _ htidy' hcore
      (fun x hx E hE => by cases hE; exact fun _ => .inr hx)
      (fun h => covered_body h (hsettled h) (horderly h).1) (fun h => (horderly h).2) hissues
    exact ⟨hframes, _, hbody⟩
  | .expr e, around, Γ, htidy, hcore, _, hsettled, _, _, hissues => by
    simp only [resolveStmt, Step.bind_run, Step.pure_run, List.append_nil] at hissues ⊢
    exact ⟨frames_resolveExpr _ _ _, resolveExpr_fits around htidy.isOpen e hcore hsettled hissues⟩
  | .print _ value, around, Γ, htidy, hcore, _, hsettled, _, _, hissues => by
    simp only [resolveStmt, Step.bind_run, Step.pure_run, List.append_nil] at hissues ⊢
    exact ⟨frames_resolveExpr _ _ _,
      resolveExpr_fits around htidy.isOpen value hcore hsettled hissues⟩
  | .varDecl name initial, around, Γ, htidy, hcore, hallows, hsettled, hearly, _, hissues => by
    have hname := hallows name rfl
    simp only [resolveStmt, Step.bind_run, Step.pure_run, declare_run, define_run,
      frames_resolveOption, List.append_nil, List.append_eq_nil_iff, mark_mark] at hissues ⊢
    rw [← Context.frames_mark, ← Context.frames_mark] at *
    refine ⟨rfl, hname, ?_⟩
    -- in order, the first value does not mention the name it is for; what else
    -- it mentions is settled before the name is marked as well as after
    refine resolveOption_fits around (htidy.mark_false hname hcore.1) hcore.2 ?_ hissues.2
    intro hstrict x hx
    cases Γ with
    | nil => nofun
    | cons E outer =>
      have hne : x ≠ name.lexeme := by
        rintro rfl
        exact hearly hstrict (List.cons_ne_nil _ _) name rfl hx
      have hmarked : (Context.mark name.lexeme true (E :: outer)).Settled x :=
        hsettled hstrict x hx
      exact (hmarked.of_mark hne).mark hne
  | .branch _ cond yes no, around, Γ, htidy, hcore, _, hsettled, _, horderly, hissues => by
    simp only [Stmt.mentioned, List.mem_append] at hsettled
    simp only [Stmt.orderly, Bool.and_eq_true] at horderly
    obtain ⟨hcond, ⟨hdeclared, hyes⟩, hno⟩ := hcore
    have hafter : Γ.after yes = Γ := Context.after_of_none hdeclared
    have hnone : ∀ {P : Token → Prop}, ∀ name ∈ yes.declared, P name := by
      rw [hdeclared]
      rintro P name ⟨⟩
    simp only [resolveStmt, Step.bind_run, Step.pure_run, frames_resolveExpr, List.append_nil,
      List.append_eq_nil_iff] at hissues ⊢
    obtain ⟨hframes, hfits⟩ := resolveStmt_fits yes around Γ htidy hyes hnone
      (fun h x hx => by rw [hafter]; exact hsettled h x (.inl (.inr hx)))
      (fun _ _ => hnone) (fun h => (horderly h).1) hissues.2.1
    rw [hafter] at hframes
    rw [hframes] at hissues ⊢
    obtain ⟨hframes', hfits'⟩ := resolveOptionStmt_fits no around Γ htidy hno
      (fun h x hx => hsettled h x (.inr hx)) (fun h => (horderly h).2) hissues.2.2
    refine ⟨hframes', ?_, ⟨?_, hfits⟩, hfits'⟩
    · exact resolveExpr_fits around htidy.isOpen cond hcond
        (fun h x hx => hsettled h x (.inl (.inl hx))) hissues.1
    · rw [declared_resolveStmt, hdeclared]
  | .loop _ cond body, around, Γ, htidy, hcore, _, hsettled, _, horderly, hissues => by
    simp only [Stmt.mentioned, List.mem_append] at hsettled
    simp only [resolveStmt, Step.bind_run, Step.pure_run, frames_resolveExpr, List.append_nil,
      List.append_eq_nil_iff] at hissues ⊢
    obtain ⟨hframes, hfits⟩ := resolveOptionStmt_fits body around Γ htidy hcore.2
      (fun h x hx => hsettled h x (.inr hx)) horderly hissues.2
    refine ⟨hframes, ?_, hfits⟩
    exact resolveExpr_fits around htidy.isOpen cond hcore.1
      (fun h x hx => hsettled h x (.inl hx)) hissues.1
  | .forLoop _ _ _ _ _, _, _, _, hcore, _, _, _, _, _ => hcore.elim
  | .function decl, around, Γ, htidy, hcore, hallows, hsettled, _, horderly, hissues => by
    have hname := hallows decl.name rfl
    simp only [resolveStmt, Step.bind_run, Step.pure_run, declare_run, define_run, mark_mark,
      List.append_nil, List.nil_append, List.append_eq_nil_iff] at hissues ⊢
    rw [← Context.frames_mark] at *
    obtain ⟨hframes, hdecl, hfits⟩ := resolveRoutine_fits decl around _
      (htidy.mark_true hname hcore.1) hcore.2 hsettled horderly hissues.2
    refine ⟨hframes, ?_, ?_⟩
    · rw [hdecl]
      exact hname
    · rw [hdecl]
      exact hfits
  | .ret keyword value, around, Γ, htidy, hcore, _, hsettled, _, _, hissues => by
    simp only [resolveStmt] at hissues ⊢
    by_cases hinside : around.inFunction = true
    · rw [if_pos hinside] at hissues ⊢
      simp only [Step.bind_run, Step.pure_run, List.append_nil] at hissues ⊢
      exact ⟨frames_resolveOption _ _ _,
        resolveOption_fits around htidy.isOpen hcore hsettled hissues⟩
    · rw [if_neg hinside] at hissues
      simp only [Step.bind_run, complain_run, List.cons_append, List.cons_ne_nil] at hissues
  | .classDecl name superclass methods, around, Γ, htidy, hcore, hallows, hsettled, _, horderly,
      hissues => by
    have hname := hallows name rfl
    simp only [Stmt.mentioned, List.mem_append] at hsettled
    simp only [resolveStmt, Step.bind_run, Step.pure_run, declare_run, define_run, mark_mark,
      frames_resolveSuperclass, inScope_run, List.append_nil, List.nil_append,
      List.append_eq_nil_iff] at hissues ⊢
    rw [← Context.frames_mark] at *
    have htidy' := htidy.mark_true hname hcore.1
    -- the methods stand in the scope of `this`, which is made when one is bound
    obtain ⟨hframes, hmethods⟩ := resolveMethods_fits methods { around with inClass := true }
      (thisEntry :: Γ.mark name.lexeme true) htidy'.cons_thisEntry hcore.2
      (fun h x hx => List.forall_mem_cons.2
        ⟨settled_thisEntry x, hsettled h x (.inr hx)⟩) horderly hissues.2.2
    refine ⟨?_, hname, ?_, hmethods⟩
    · exact congrArg List.tail hframes
    · exact resolveSuperclass_fits htidy (fun h x hx => hsettled h x (.inl hx)) hissues.2.1

/-- The same for statements in a row. -/
theorem resolveStmts_fits : ∀ (ss : List (Stmt Unit)) (around : Surroundings) (Γ : Context),
    Tidy strict Γ → Stmt.CoreAll ss → (∀ x ∈ Stmt.declares ss, Γ.Allows x) →
    (strict → Covered Γ ss) → (strict → Stmt.orderlyAll ss = true) →
    (resolveStmts around ss Γ.frames).issues = [] →
    (resolveStmts around ss Γ.frames).frames.tail = Γ.frames.tail ∧
      BodyFits strict Γ (resolveStmts around ss Γ.frames).value
  | [], _, _, _, _, _, _, _, _ => ⟨rfl, trivial⟩
  | s :: rest, around, Γ, htidy, hcore, hallows, hcovered, horderly, hissues => by
    simp only [Stmt.orderlyAll, Bool.and_eq_true] at horderly
    simp only [resolveStmts, Step.bind_run, Step.pure_run, List.append_nil,
      List.append_eq_nil_iff] at hissues ⊢
    have hown : ∀ name ∈ s.declared, Γ.Allows name.lexeme := fun name hname =>
      hallows _ (Stmt.mem_declares_cons.2 (.inl ⟨name, hname, rfl⟩))
    -- the first statement in the context as it is, the rest in the one after it
    obtain ⟨hframes, hfits⟩ := resolveStmt_fits s around Γ htidy hcore.1 hown
      (fun h => (hcovered h).first htidy) (fun h => (hcovered h).early)
      (fun h => (horderly h).1) hissues.1
    have htidy' : Tidy strict (Γ.after s) := by
      unfold Context.after
      cases hs : s.declared with
      | none => exact htidy
      | some name =>
        refine htidy.mark_true (hown name hs) ?_
        exact ne_thisName_of_mem_declares hcore _ (Stmt.mem_declares_cons.2 (.inl ⟨name, hs, rfl⟩))
    have hallows' : ∀ x ∈ Stmt.declares rest, (Γ.after s).Allows x := by
      intro x hx E hE
      obtain ⟨E', hE', hallowed, -⟩ := Context.head_after hE
      rw [hallowed]
      exact hallows x (Stmt.mem_declares_cons.2 (.inr hx)) E' hE'
    rw [hframes] at hissues ⊢
    obtain ⟨hframes', hfits'⟩ := resolveStmts_fits rest around _ htidy' hcore.2 hallows'
      (fun h => (hcovered h).rest) (fun h => (horderly h).2) hissues.2
    refine ⟨hframes'.trans (frames_after s Γ), hfits, ?_⟩
    rw [Context.after, declared_resolveStmt]
    exact hfits'

/-- The same for a statement that may be missing and declares nothing. -/
theorem resolveOptionStmt_fits : ∀ (s : Option (Stmt Unit)) (around : Surroundings) (Γ : Context),
    Tidy strict Γ → Stmt.CoreOption s →
    (strict → ∀ x ∈ Stmt.mentionedOption s, Γ.Settled x) →
    (strict → Stmt.orderlyOption s = true) →
    (resolveOptionStmt around s Γ.frames).issues = [] →
    (resolveOptionStmt around s Γ.frames).frames = Γ.frames ∧
      StmtOptionFits strict Γ (resolveOptionStmt around s Γ.frames).value
  | none, _, _, _, _, _, _, _ => ⟨rfl, trivial⟩
  | some s, around, Γ, htidy, hcore, hsettled, horderly, hissues => by
    obtain ⟨hdeclared, hs⟩ := hcore
    have hafter : Γ.after s = Γ := Context.after_of_none hdeclared
    have hnone : ∀ {P : Token → Prop}, ∀ name ∈ s.declared, P name := by
      rw [hdeclared]
      rintro P name ⟨⟩
    simp only [resolveOptionStmt, Step.bind_run, Step.pure_run, List.append_nil] at hissues ⊢
    obtain ⟨hframes, hfits⟩ := resolveStmt_fits s around Γ htidy hs hnone
      (fun h => by rw [hafter]; exact hsettled h) (fun _ _ => hnone) horderly hissues
    rw [hafter] at hframes
    refine ⟨hframes, ?_, hfits⟩
    rw [declared_resolveStmt, hdeclared]

/-- A function resolved without an issue fits. -/
theorem resolveRoutine_fits : ∀ (decl : Routine (Stmt Unit)) (around : Surroundings) (Γ : Context),
    Tidy strict Γ → Stmt.CoreRoutine decl →
    (strict → ∀ x ∈ Stmt.mentionedRoutine decl, Γ.Settled x) →
    (strict → Stmt.orderlyRoutine decl = true) →
    (resolveRoutine around decl Γ.frames).issues = [] →
    (resolveRoutine around decl Γ.frames).frames = Γ.frames ∧
      (resolveRoutine around decl Γ.frames).value.name = decl.name ∧
      RoutineFits strict Γ (resolveRoutine around decl Γ.frames).value
  | ⟨name, params, body⟩, around, Γ, htidy, hcore, hsettled, horderly, hissues => by
    simp only [Stmt.orderlyRoutine, Bool.and_eq_true] at horderly
    simp only [resolveRoutine, inScope_run, Step.bind_run, Step.pure_run, frames_declareAll,
      List.append_nil, List.append_eq_nil_iff] at hissues ⊢
    have htidy' := htidy.cons_body hcore.1 hcore.2
    obtain ⟨hframes, hbody⟩ := resolveStmts_fits body { around with inFunction := true } _ htidy'
      hcore.2 (fun x hx E hE => by cases hE; exact fun _ => .inr hx)
      (fun h => covered_body h (hsettled h) (horderly h).1) (fun h => (horderly h).2) hissues.2
    exact ⟨hframes, trivial, _, fun p hp _ => .inl ⟨p, hp, rfl⟩, hbody⟩

/-- The same for methods in a row. -/
theorem resolveMethods_fits :
    ∀ (ms : List (Routine (Stmt Unit))) (around : Surroundings) (Γ : Context),
    Tidy strict Γ → Stmt.CoreMethods ms →
    (strict → ∀ x ∈ Stmt.mentionedMethods ms, Γ.Settled x) →
    (strict → Stmt.orderlyMethods ms = true) →
    (resolveMethods around ms Γ.frames).issues = [] →
    (resolveMethods around ms Γ.frames).frames = Γ.frames ∧
      MethodsFit strict Γ (resolveMethods around ms Γ.frames).value
  | [], _, _, _, _, _, _, _ => ⟨rfl, trivial⟩
  | m :: rest, around, Γ, htidy, hcore, hsettled, horderly, hissues => by
    simp only [Stmt.mentionedMethods, List.mem_append] at hsettled
    simp only [Stmt.orderlyMethods, Bool.and_eq_true] at horderly
    simp only [resolveMethods, Step.bind_run, Step.pure_run, List.append_nil,
      List.append_eq_nil_iff] at hissues ⊢
    obtain ⟨hframes, -, hfits⟩ := resolveRoutine_fits m around Γ htidy hcore.1
      (fun h x hx => hsettled h x (.inl hx)) (fun h => (horderly h).1) hissues.1
    rw [hframes] at hissues ⊢
    obtain ⟨hframes', hfits'⟩ := resolveMethods_fits rest around Γ htidy hcore.2
      (fun h x hx => hsettled h x (.inr hx)) (fun h => (horderly h).2) hissues.2
    exact ⟨hframes', hfits, hfits'⟩

end

/-- **A program resolved without an issue fits at the top**, where there are
no local scopes. -/
theorem resolve_fits {p : Program Unit} (hcore : Stmt.CoreAll p)
    (horderly : strict → Stmt.orderlyAll p = true) (hissues : (resolve p).issues = []) :
    BodyFits strict [] (resolve p).value := by
  refine (resolveStmts_fits p {} [] .nil hcore (fun x _ => Context.allows_nil x) (fun _ => ?_)
    horderly hissues).2
  exact ⟨fun _ _ => nofun, nofun, fun h => absurd rfl h⟩

/-! ## The scopes after a statement -/

section

variable {α : Type}

/-- The scopes after a statement, which may have declared a name. -/
def framesAfter (s : Stmt α) (frames : List Frame) : List Frame :=
  match s.declared with
  | none => frames
  | some name => mark name.lexeme true frames

theorem framesAfter_of_none {s : Stmt α} (h : s.declared = none) (frames : List Frame) :
    framesAfter s frames = frames := by
  rw [framesAfter, h]

theorem tail_framesAfter (s : Stmt α) (frames : List Frame) :
    (framesAfter s frames).tail = frames.tail := by
  unfold framesAfter
  split
  · rfl
  · exact tail_mark _ _ _

end

mutual

/-- **A statement has declared its name, and nothing else.** -/
theorem frames_resolveStmt : ∀ (s : Stmt Unit) (sur : Surroundings) (frames : List Frame),
    s.Core → (resolveStmt sur s frames).frames = framesAfter s frames
  | .block _ body, sur, frames, hcore => by
    simp only [resolveStmt, Step.bind_run, Step.pure_run, inScope_run]
    exact tail_resolveStmts body sur (.empty :: frames) hcore
  | .expr e, sur, frames, _ => frames_resolveExpr sur frames e
  | .print _ value, sur, frames, _ => frames_resolveExpr sur frames value
  | .varDecl name initial, sur, frames, _ => by
    simp only [resolveStmt, Step.bind_run, Step.pure_run, declare_run, define_run,
      frames_resolveOption, mark_mark]
    rfl
  | .branch _ cond yes no, sur, frames, ⟨_, ⟨hdeclared, hyes⟩, hno⟩ => by
    simp only [resolveStmt, Step.bind_run, Step.pure_run, frames_resolveExpr,
      frames_resolveStmt yes sur frames hyes, framesAfter_of_none hdeclared]
    exact frames_resolveOptionStmt no sur frames hno
  | .loop _ cond body, sur, frames, ⟨_, hbody⟩ => by
    simp only [resolveStmt, Step.bind_run, Step.pure_run, frames_resolveExpr]
    exact frames_resolveOptionStmt body sur frames hbody
  | .forLoop _ _ _ _ _, _, _, hcore => hcore.elim
  | .function decl, sur, frames, ⟨_, hdecl⟩ => by
    simp only [resolveStmt, Step.bind_run, Step.pure_run, declare_run, define_run, mark_mark]
    exact frames_resolveRoutine decl sur _ hdecl
  | .ret keyword value, sur, frames, _ => by
    simp only [resolveStmt]
    split <;> exact frames_resolveOption sur frames value
  | .classDecl name superclass methods, sur, frames, ⟨_, hmethods⟩ => by
    simp only [resolveStmt, Step.bind_run, Step.pure_run, declare_run, define_run, mark_mark,
      frames_resolveSuperclass, inScope_run, frames_resolveMethods methods _ _ hmethods]
    rfl

/-- Statements in a row leave the scopes further out alone. -/
theorem tail_resolveStmts : ∀ (ss : List (Stmt Unit)) (sur : Surroundings) (frames : List Frame),
    Stmt.CoreAll ss → (resolveStmts sur ss frames).frames.tail = frames.tail
  | [], _, _, _ => rfl
  | s :: rest, sur, frames, ⟨hs, hrest⟩ => by
    simp only [resolveStmts, Step.bind_run, Step.pure_run, frames_resolveStmt s sur frames hs]
    rw [tail_resolveStmts rest sur _ hrest, tail_framesAfter]

/-- The same for a statement that may be missing and declares nothing. -/
theorem frames_resolveOptionStmt : ∀ (s : Option (Stmt Unit)) (sur : Surroundings)
    (frames : List Frame), Stmt.CoreOption s → (resolveOptionStmt sur s frames).frames = frames
  | none, _, _, _ => rfl
  | some s, sur, frames, ⟨hdeclared, hs⟩ => by
    simp only [resolveOptionStmt, Step.bind_run, Step.pure_run, frames_resolveStmt s sur frames hs,
      framesAfter_of_none hdeclared]

theorem frames_resolveRoutine : ∀ (decl : Routine (Stmt Unit)) (sur : Surroundings)
    (frames : List Frame), Stmt.CoreRoutine decl → (resolveRoutine sur decl frames).frames = frames
  | ⟨name, params, body⟩, sur, frames, ⟨_, hbody⟩ => by
    simp only [resolveRoutine, inScope_run, Step.bind_run, Step.pure_run, frames_declareAll]
    exact tail_resolveStmts body _ _ hbody

theorem frames_resolveMethods : ∀ (ms : List (Routine (Stmt Unit))) (sur : Surroundings)
    (frames : List Frame), Stmt.CoreMethods ms → (resolveMethods sur ms frames).frames = frames
  | [], _, _, _ => rfl
  | m :: rest, sur, frames, ⟨hm, hrest⟩ => by
    simp only [resolveMethods, Step.bind_run, Step.pure_run, frames_resolveRoutine m sur frames hm,
      frames_resolveMethods rest sur frames hrest]

end

end Scoping

end TanLang
