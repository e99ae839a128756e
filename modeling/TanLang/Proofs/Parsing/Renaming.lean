import TanLang.Proofs.Parsing.Acceptance
import TanLang.Proofs.Renaming
/-!
# Parsing — respelled names are read alike

The grammar asks for the kinds of tokens and never for how they are spelled.
So a tree that differs from a derived one in how names are spelled is derived
too, **from the same tokens but for the names**. The tree of a program has
its `for` loops written out; what is respelled in it can be traced back to
the clauses of the loop that was written.
-/

namespace TanLang

/-- **An identifier that is respelled, or any token left alone.** -/
def Renaming.Reworded (r : Renaming) (t t' : Token) : Prop :=
  t' = t ∨ t.kind = .identifier ∧ t.lexeme = r.old ∧ t' = { t with lexeme := r.new }

/-- The same for tokens in a row. -/
abbrev Renaming.RewordedAll (r : Renaming) : List Token → List Token → Prop :=
  List.Forall₂ r.Reworded

namespace Renaming

variable {r : Renaming} {t t' : Token}

theorem Reworded.refl (t : Token) : r.Reworded t t := .inl rfl

theorem Reworded.kind_eq (h : r.Reworded t t') : t'.kind = t.kind := by
  rcases h with rfl | ⟨-, -, rfl⟩ <;> rfl

theorem Respelled.reworded (h : r.Respelled t t') (hkind : t.kind = .identifier) :
    r.Reworded t t' := by
  rcases h with h | ⟨hold, h⟩
  · exact .inl h
  · exact .inr ⟨hkind, hold, h⟩

/-- What is respelled stays an identifier. -/
theorem Respelled.identifier (h : r.Respelled t t') (hkind : t.kind = .identifier) :
    t'.kind = .identifier := by
  rw [(h.reworded hkind).kind_eq, hkind]

theorem rewordedAll_refl (w : List Token) : r.RewordedAll w w :=
  List.forall₂_same.2 fun t _ => .refl t

end Renaming

namespace Grammar

open Renaming (rewordedAll_refl)

variable {r : Renaming} {around : List Bool}

/-! ## Expressions -/

theorem varies_node {V : Variation Unit Unit} {t : Parser.Tier} {left right e' : Expr Unit}
    {op : Token} (h : (t.node left op right).Varies V around e') :
    ∃ left' right', e' = t.node left' op right' ∧ left.Varies V around left' ∧
      right.Varies V around right' := by
  cases t <;> cases h <;> exact ⟨_, _, rfl, by assumption, by assumption⟩

theorem length_of_variesAll {V : Variation Unit Unit} {es es' : List (Expr Unit)}
    (h : Expr.VariesAll V around es es') : es'.length = es.length := by
  induction es generalizing es' with
  | nil =>
    cases h
    rfl
  | cons e rest ih =>
    cases h with
    | cons _ hrest => rw [List.length_cons, List.length_cons, ih hrest]

mutual

/-- **What differs from a derived expression in how names are spelled is
derived from the same tokens, respelled.** -/
theorem Expression.reword {level : Level} {w : List Token} {e e' : Expr Unit} :
    Expression level w e → e.Varies r.respelling around e' →
    ∃ w', Expression level w' e' ∧ r.RewordedAll w w'
  | .assign hname hequals hvalue, hv => by
    cases hv with
    | assign huse hv =>
      obtain ⟨w', hw', hr⟩ := hvalue.reword hv
      exact ⟨_, .assign (huse.identifier hname) hequals hw',
        .cons (huse.reworded hname) (.cons (.refl _) hr)⟩
  | .assignField hobject hdot hname hequals hvalue, hv => by
    cases hv with
    | set _ ho hv =>
      obtain ⟨c', hc', hr⟩ := hobject.reword ho
      obtain ⟨w', hw', hr'⟩ := hvalue.reword hv
      exact ⟨_, .assignField hc' hdot hname hequals hw',
        List.rel_append hr (.cons (.refl _) (.cons (.refl _) (.cons (.refl _) hr')))⟩
  | .assignNone h, hv => by
    obtain ⟨w', hw', hr⟩ := h.reword hv
    exact ⟨w', .assignNone hw', hr⟩
  | .choice hcond hmark hyes hcolon hno, hv => by
    cases hv with
    | ternary _ hc hy hn =>
      obtain ⟨c', hc', hrc⟩ := hcond.reword hc
      obtain ⟨y', hy', hry⟩ := hyes.reword hy
      obtain ⟨n', hn', hrn⟩ := hno.reword hn
      exact ⟨_, .choice hc' hmark hy' hcolon hn',
        List.rel_append hrc (.cons (.refl _) (List.rel_append hry (.cons (.refl _) hrn)))⟩
  | .choiceNone h, hv => by
    obtain ⟨w', hw', hr⟩ := h.reword hv
    exact ⟨w', .choiceNone hw', hr⟩
  | .chain hleft hop hright, hv => by
    obtain ⟨left', right', rfl, hl, hr⟩ := varies_node hv
    obtain ⟨l', hl', hrl⟩ := hleft.reword hl
    obtain ⟨r', hr', hrr⟩ := hright.reword hr
    exact ⟨_, .chain hl' hop hr', List.rel_append hrl (.cons (.refl _) hrr)⟩
  | .chainNone h, hv => by
    obtain ⟨w', hw', hr⟩ := h.reword hv
    exact ⟨w', .chainNone hw', hr⟩
  | .sign hop h, hv => by
    cases hv with
    | unary _ hv =>
      obtain ⟨w', hw', hr⟩ := h.reword hv
      exact ⟨_, .sign hop hw', .cons (.refl _) hr⟩
  | .signNone h, hv => by
    obtain ⟨w', hw', hr⟩ := h.reword hv
    exact ⟨w', .signNone hw', hr⟩
  | .invoke hcallee hopening hclosing, hv => by
    cases hv with
    | call _ hc ha =>
      cases ha
      obtain ⟨c', hc', hr⟩ := hcallee.reword hc
      exact ⟨_, .invoke hc' hopening hclosing, List.rel_append hr (rewordedAll_refl _)⟩
  | .invokeWith hcallee hopening hargs hcount hclosing, hv => by
    cases hv with
    | call _ hc ha =>
      obtain ⟨c', hc', hrc⟩ := hcallee.reword hc
      obtain ⟨a', ha', hra⟩ := hargs.reword ha
      exact ⟨_, .invokeWith hc' hopening ha' (by rwa [length_of_variesAll ha]) hclosing,
        List.rel_append hrc (.cons (.refl _) (List.rel_append hra (rewordedAll_refl _)))⟩
  | .property hobject hdot hname, hv => by
    cases hv with
    | get _ ho =>
      obtain ⟨c', hc', hr⟩ := hobject.reword ho
      exact ⟨_, .property hc' hdot hname, List.rel_append hr (rewordedAll_refl _)⟩
  | .callNone h, hv => by
    obtain ⟨w', hw', hr⟩ := h.reword hv
    exact ⟨w', .callNone hw', hr⟩
  | .constant h, hv => by
    cases hv
    exact ⟨_, .constant h, rewordedAll_refl _⟩
  | .receiver h, hv => by
    cases hv
    exact ⟨_, .receiver h, rewordedAll_refl _⟩
  | .name h, hv => by
    cases hv with
    | var huse => exact ⟨_, .name (huse.identifier h), .cons (huse.reworded h) .nil⟩
  | .grouping hopening h hclosing, hv => by
    cases hv with
    | grouping _ hv =>
      obtain ⟨w', hw', hr⟩ := h.reword hv
      exact ⟨_, .grouping hopening hw' hclosing,
        .cons (.refl _) (List.rel_append hr (rewordedAll_refl _))⟩

/-- The same for expressions with commas between them. -/
theorem Arguments.reword {w : List Token} {es es' : List (Expr Unit)} :
    Arguments w es → Expr.VariesAll r.respelling around es es' →
    ∃ w', Arguments w' es' ∧ r.RewordedAll w w'
  | .one h, hv => by
    cases hv with
    | cons hv hnil =>
      cases hnil
      obtain ⟨w', hw', hr⟩ := h.reword hv
      exact ⟨w', .one hw', hr⟩
  | .more h hcomma hes, hv => by
    cases hv with
    | cons hv hvs =>
      obtain ⟨w', hw', hr⟩ := h.reword hv
      obtain ⟨v', hv', hr'⟩ := hes.reword hvs
      exact ⟨_, .more hw' hcomma hv', List.rel_append hr (.cons (.refl _) hr')⟩

end

/-- The same for an expression that may be missing. -/
theorem Optional.reword {w : List Token} {e e' : Option (Expr Unit)} (h : Optional w e)
    (hv : Expr.VariesOption r.respelling around e e') :
    ∃ w', Optional w' e' ∧ r.RewordedAll w w' := by
  cases hv with
  | none =>
    cases h
    exact ⟨_, .none, rewordedAll_refl _⟩
  | some hv =>
    cases h with
    | some h =>
      obtain ⟨w', hw', hr⟩ := h.reword hv
      exact ⟨w', .some hw', hr⟩

/-! ## The parts of statements -/

theorem Variable.reword {w : List Token} {s q : Stmt Unit} (h : Variable w s)
    (hv : s.desugar.Varies r.respelling around q) :
    ∃ w', Variable w' q ∧ q.desugar = q ∧ r.RewordedAll w w' := by
  cases h with
  | plain hkeyword hname hsemicolon =>
    simp only [Stmt.desugar] at hv
    cases hv with
    | varDecl hdeclared hv =>
      cases hv
      exact ⟨_, .plain hkeyword (hdeclared.identifier hname) hsemicolon, rfl,
        .cons (.refl _) (.cons (hdeclared.reworded hname) (rewordedAll_refl _))⟩
  | initial hkeyword hname hequals h hsemicolon =>
    simp only [Stmt.desugar] at hv
    cases hv with
    | varDecl hdeclared hv =>
      cases hv with
      | some hv =>
        obtain ⟨w', hw', hr⟩ := h.reword hv
        exact ⟨_, .initial hkeyword (hdeclared.identifier hname) hequals hw' hsemicolon, rfl,
          .cons (.refl _) (.cons (hdeclared.reworded hname)
            (.cons (.refl _) (List.rel_append hr (rewordedAll_refl _))))⟩

theorem Effect.reword {w : List Token} {s q : Stmt Unit} (h : Effect w s)
    (hv : s.desugar.Varies r.respelling around q) :
    ∃ w', Effect w' q ∧ q.desugar = q ∧ r.RewordedAll w w' := by
  cases h with
  | intro h hsemicolon =>
    simp only [Stmt.desugar] at hv
    cases hv with
    | expr hv =>
      obtain ⟨w', hw', hr⟩ := h.reword hv
      exact ⟨_, .intro hw' hsemicolon, rfl, List.rel_append hr (rewordedAll_refl _)⟩

theorem Names.reword {w names names' : List Token} (h : Names w names)
    (hv : List.Forall₂ r.Respelled names names') :
    ∃ w', Names w' names' ∧ r.RewordedAll w w' := by
  induction h generalizing names' with
  | one hname =>
    cases hv with
    | cons huse hnil =>
      cases hnil
      exact ⟨_, .one (huse.identifier hname), .cons (huse.reworded hname) .nil⟩
  | more hname hcomma _ ih =>
    cases hv with
    | cons huse hrest =>
      obtain ⟨w', hw', hr⟩ := ih hrest
      exact ⟨_, .more (huse.identifier hname) hcomma hw',
        .cons (huse.reworded hname) (.cons (.refl _) hr)⟩

theorem Parameters.reword {w params params' : List Token} (h : Parameters w params)
    (hv : List.Forall₂ r.Respelled params params') :
    ∃ w', Parameters w' params' ∧ r.RewordedAll w w' := by
  cases h with
  | none =>
    cases hv
    exact ⟨_, .none, rewordedAll_refl _⟩
  | some h hcount =>
    obtain ⟨w', hw', hr⟩ := h.reword hv
    exact ⟨w', .some hw' (by rwa [← hv.length_eq]), hr⟩

theorem Superclass.reword {w : List Token} {superclass superclass' : Option (Token × Unit)}
    (h : Superclass w superclass)
    (hv : Stmt.SuperclassVaries r.respelling around superclass superclass') :
    ∃ w', Superclass w' superclass' ∧ r.RewordedAll w w' := by
  cases hv with
  | none =>
    cases h
    exact ⟨_, .none, rewordedAll_refl _⟩
  | some huse =>
    cases h with
    | some hless hname =>
      exact ⟨_, .some hless (huse.identifier hname),
        .cons (.refl _) (.cons (huse.reworded hname) .nil)⟩

/-! ## Loops that are written out -/

section

variable {V : Variation Unit Unit} {keyword : Token} {cond step : Option (Expr Unit)}
variable {initial body : Option (Stmt Unit)}

/-- What differs from what a loop repeats is what a loop repeats, and its
parts differ. -/
theorem varies_repeated {q : Option (Stmt Unit)}
    (h : Stmt.VariesOption V around (Stmt.repeated keyword step body) q) :
    ∃ step' body' inner, q = Stmt.repeated keyword step' body' ∧
      Expr.VariesOption V inner step step' ∧ Stmt.VariesOption V inner body body' := by
  cases step with
  | none => exact ⟨none, q, around, rfl, .none, h⟩
  | some step =>
    cases body with
    | none =>
      cases h with
      | some h =>
        cases h with
        | expr h => exact ⟨_, none, around, rfl, .some h, .none⟩
    | some body =>
      cases h with
      | some h =>
        cases h with
        | block here _ h =>
          cases h with
          | cons hbody h =>
            cases h with
            | cons hstep hnil =>
              cases hnil
              cases hstep with
              | expr hstep => exact ⟨_, _, here :: around, rfl, .some hstep, .some hbody⟩

/-- **What differs from a loop that is written out is one, too**, and its
clauses differ. -/
theorem varies_writeOut {q : Stmt Unit}
    (h : (Stmt.writeOut keyword initial cond step body).Varies V around q) :
    ∃ initial' cond' step' body' outer inner,
      q = Stmt.writeOut keyword initial' cond' step' body' ∧
      Stmt.VariesOption V outer initial initial' ∧ Expr.VariesOption V outer cond cond' ∧
      Expr.VariesOption V inner step step' ∧ Stmt.VariesOption V inner body body' := by
  have hloop : ∀ {outer : List Bool} {q : Stmt Unit},
      (Stmt.loop keyword (cond.getD (.literal keyword (.bool true)))
        (Stmt.repeated keyword step body)).Varies V outer q →
      ∃ cond' step' body' inner,
        q = .loop keyword (cond'.getD (.literal keyword (.bool true)))
          (Stmt.repeated keyword step' body') ∧
        Expr.VariesOption V outer cond cond' ∧ Expr.VariesOption V inner step step' ∧
        Stmt.VariesOption V inner body body' := by
    intro outer q h
    cases h with
    | loop _ hcond hbody =>
      obtain ⟨step', body', inner, rfl, hstep, hbody⟩ := varies_repeated hbody
      cases cond with
      | none =>
        cases hcond
        exact ⟨none, step', body', inner, rfl, .none, hstep, hbody⟩
      | some cond => exact ⟨some _, step', body', inner, rfl, .some hcond, hstep, hbody⟩
  cases initial with
  | none =>
    obtain ⟨cond', step', body', inner, rfl, hcond, hstep, hbody⟩ := hloop h
    exact ⟨none, cond', step', body', around, inner, rfl, .none, hcond, hstep, hbody⟩
  | some initial =>
    cases h with
    | block here _ h =>
      cases h with
      | cons hinitial h =>
        cases h with
        | cons h hnil =>
          cases hnil
          obtain ⟨cond', step', body', inner, rfl, hcond, hstep, hbody⟩ := hloop h
          exact ⟨some _, cond', step', body', here :: around, inner, rfl, .some hinitial, hcond,
            hstep, hbody⟩

end

theorem ForClauses.reword {w : List Token} {initial : Option (Stmt Unit)}
    {cond step : Option (Expr Unit)} (h : ForClauses w initial cond step) {outer inner : List Bool}
    {initial' : Option (Stmt Unit)} {cond' step' : Option (Expr Unit)}
    (hvi : Stmt.VariesOption r.respelling outer (Stmt.desugarOption initial) initial')
    (hvc : Expr.VariesOption r.respelling outer cond cond')
    (hvs : Expr.VariesOption r.respelling inner step step') :
    ∃ w', ForClauses w' initial' cond' step' ∧ Stmt.desugarOption initial' = initial' ∧
      r.RewordedAll w w' := by
  cases h with
  | @intro opening semicolon closing i c s _ _ _ hopening hinitial hcond hsemicolon hstep
      hclosing =>
    obtain ⟨c', hc', hrc⟩ := hcond.reword hvc
    obtain ⟨s', hs', hrs⟩ := hstep.reword hvs
    have hclauses : ∃ i', ForInitial i' initial' ∧ Stmt.desugarOption initial' = initial' ∧
        r.RewordedAll i i' := by
      cases hinitial with
      | none h =>
        cases hvi
        exact ⟨_, .none h, rfl, rewordedAll_refl _⟩
      | declared h =>
        cases hvi with
        | some hv =>
          obtain ⟨i', hi', hdesugar, hri⟩ := h.reword hv
          exact ⟨i', .declared hi', congrArg some hdesugar, hri⟩
      | effect h =>
        cases hvi with
        | some hv =>
          obtain ⟨i', hi', hdesugar, hri⟩ := h.reword hv
          exact ⟨i', .effect hi', congrArg some hdesugar, hri⟩
    obtain ⟨i', hi', hdesugar, hri⟩ := hclauses
    exact ⟨_, .intro hopening hi' hc' hsemicolon hs' hclosing, hdesugar,
      .cons (.refl _) (List.rel_append hri (List.rel_append hrc
        (.cons (.refl _) (List.rel_append hrs (rewordedAll_refl _)))))⟩

/-! ## Statements -/

/-- **A derivation of what is written out as the tree given**, from the same
tokens, respelled. What matters for the next `else` is the same. -/
def StmtReworded (r : Renaming) (derives : List Token → Stmt Unit → Prop) (w : List Token)
    (s q : Stmt Unit) : Prop :=
  ∃ w' s', derives w' s' ∧ s'.desugar = q ∧ r.RewordedAll w w' ∧ s'.trailingIf = s.trailingIf ∧
    (s.NearestElse → s'.NearestElse)

/-- The same for statements in a row. -/
def StmtsReworded (r : Renaming) (derives : List Token → List (Stmt Unit) → Prop) (w : List Token)
    (ss q : List (Stmt Unit)) : Prop :=
  ∃ w' ss', derives w' ss' ∧ Stmt.desugarAll ss' = q ∧ r.RewordedAll w w' ∧
    (Stmt.NearestElseAll ss → Stmt.NearestElseAll ss')

mutual

/-- **What differs from a derived statement in how names are spelled is
derived from the same tokens, respelled.** -/
theorem Statement.reword {w : List Token} {s q : Stmt Unit} :
    ∀ {around : List Bool}, Statement w s → s.desugar.Varies r.respelling around q →
    StmtReworded r Statement w s q
  | _, .effect h, hv => by
    obtain ⟨w', hw', hdesugar, hr⟩ := h.reword hv
    refine ⟨w', q, .effect hw', hdesugar, hr, ?_, fun _ => Parser.nearestElse_of_effect hw'⟩
    rw [Parser.not_trailingIf_of_effect h, Parser.not_trailingIf_of_effect hw']
  | _, .print hkeyword h hsemicolon, hv => by
    simp only [Stmt.desugar] at hv
    cases hv with
    | print _ hv =>
      obtain ⟨w', hw', hr⟩ := h.reword hv
      exact ⟨_, _, .print hkeyword hw' hsemicolon, rfl,
        .cons (.refl _) (List.rel_append hr (rewordedAll_refl _)), rfl, id⟩
  | _, .ret hkeyword h hsemicolon, hv => by
    simp only [Stmt.desugar] at hv
    cases hv with
    | ret _ hv =>
      obtain ⟨w', hw', hr⟩ := h.reword hv
      exact ⟨_, _, .ret hkeyword hw' hsemicolon, rfl,
        .cons (.refl _) (List.rel_append hr (rewordedAll_refl _)), rfl, id⟩
  | _, .block hopening h, hv => by
    simp only [Stmt.desugar] at hv
    cases hv with
    | block here _ hv =>
      obtain ⟨w', body', hw', rfl, hr, hnear⟩ := h.reword hv
      exact ⟨_, _, .block hopening hw', rfl, .cons (.refl _) hr, rfl, hnear⟩
  | _, .branch hkeyword hopening hcond hclosing hyes, hv => by
    simp only [Stmt.desugar, Stmt.desugarOption] at hv
    cases hv with
    | branch _ hvc hvy hvn =>
      cases hvn
      obtain ⟨c', hc', hrc⟩ := hcond.reword hvc
      obtain ⟨y', yes', hy', rfl, hry, -, hnear⟩ := hyes.reword hvy
      exact ⟨_, _, .branch hkeyword hopening hc' hclosing hy', rfl,
        .cons (.refl _) (.cons (.refl _) (List.rel_append hrc (.cons (.refl _) hry))), rfl,
        fun h => ⟨hnear h.1, trivial, nofun⟩⟩
  | _, .branchElse hkeyword hopening hcond hclosing hyes hotherwise hno, hv => by
    simp only [Stmt.desugar, Stmt.desugarOption] at hv
    cases hv with
    | branch _ hvc hvy hvn =>
      cases hvn with
      | some hvn =>
        obtain ⟨c', hc', hrc⟩ := hcond.reword hvc
        obtain ⟨y', yes', hy', rfl, hry, htrailing, hnear⟩ := hyes.reword hvy
        obtain ⟨n', no', hn', rfl, hrn, htrailing', hnear'⟩ := hno.reword hvn
        refine ⟨_, _, .branchElse hkeyword hopening hc' hclosing hy' hotherwise hn', rfl,
          .cons (.refl _) (.cons (.refl _) (List.rel_append hrc
            (.cons (.refl _) (List.rel_append hry (.cons (.refl _) hrn))))), htrailing',
          fun h => ⟨hnear h.1, hnear' h.2.1, fun hsome => ?_⟩⟩
        rw [htrailing]
        exact h.2.2 hsome
  | _, .loop hkeyword hopening hcond hclosing hbody, hv => by
    simp only [Stmt.desugar, Stmt.desugarOption] at hv
    cases hv with
    | loop _ hvc hvb =>
      cases hvb with
      | some hvb =>
        obtain ⟨c', hc', hrc⟩ := hcond.reword hvc
        obtain ⟨b', body', hb', rfl, hrb, htrailing, hnear⟩ := hbody.reword hvb
        exact ⟨_, _, .loop hkeyword hopening hc' hclosing hb', rfl,
          .cons (.refl _) (.cons (.refl _) (List.rel_append hrc (.cons (.refl _) hrb))), htrailing,
          hnear⟩
  | _, .forLoop hkeyword hclauses hbody, hv => by
    simp only [Stmt.desugar] at hv
    obtain ⟨initial', cond', step', body', outer, inner, rfl, hvi, hvc, hvs, hvb⟩ :=
      varies_writeOut hv
    obtain ⟨c', hc', hdesugar, hrc⟩ := hclauses.reword hvi hvc hvs
    cases hvb with
    | some hvb =>
      obtain ⟨b', body', hb', rfl, hrb, htrailing, hnear⟩ := hbody.reword hvb
      refine ⟨_, _, .forLoop hkeyword hc' hb', ?_, .cons (.refl _) (List.rel_append hrc hrb),
        htrailing, fun h => ⟨nearestElse_of_forClauses hc', hnear h.2⟩⟩
      rw [Stmt.desugar, hdesugar]
      rfl
  | _, .forEmpty hkeyword hclauses hsemicolon, hv => by
    simp only [Stmt.desugar] at hv
    obtain ⟨initial', cond', step', body', outer, inner, rfl, hvi, hvc, hvs, hvb⟩ :=
      varies_writeOut hv
    obtain ⟨c', hc', hdesugar, hrc⟩ := hclauses.reword hvi hvc hvs
    cases hvb
    refine ⟨_, _, .forEmpty hkeyword hc' hsemicolon, ?_,
      .cons (.refl _) (List.rel_append hrc (rewordedAll_refl _)), rfl,
      fun _ => ⟨nearestElse_of_forClauses hc', trivial⟩⟩
    rw [Stmt.desugar, hdesugar]
    rfl

/-- The same for a declaration. -/
theorem Declaration.reword {w : List Token} {s q : Stmt Unit} :
    ∀ {around : List Bool}, Declaration w s → s.desugar.Varies r.respelling around q →
    StmtReworded r Declaration w s q
  | _, .statement h, hv => by
    obtain ⟨w', s', hs', hrest⟩ := h.reword hv
    exact ⟨w', s', .statement hs', hrest⟩
  | _, .varDecl h, hv => by
    obtain ⟨w', hw', hdesugar, hr⟩ := h.reword hv
    refine ⟨w', q, .varDecl hw', hdesugar, hr, ?_, fun _ => Parser.nearestElse_of_variable hw'⟩
    cases h <;> cases hw' <;> rfl
  | _, .function hkeyword h, hv => by
    simp only [Stmt.desugar] at hv
    cases hv with
    | function _ hv =>
      obtain ⟨w', decl', hw', rfl, hr, hnear⟩ := h.reword hv
      exact ⟨_, _, .function hkeyword hw', rfl, .cons (.refl _) hr, rfl, hnear⟩
  | _, .classDecl hkeyword hname hsuperclass hopening hmethods hclosing, hv => by
    simp only [Stmt.desugar] at hv
    cases hv with
    | classDecl _ hvs hvm =>
      obtain ⟨s', hs', hrs⟩ := hsuperclass.reword hvs
      obtain ⟨m', methods', hm', rfl, hrm, hnear⟩ := hmethods.reword hvm
      exact ⟨_, _, .classDecl hkeyword hname hs' hopening hm' hclosing, rfl,
        .cons (.refl _) (.cons (.refl _) (List.rel_append hrs
          (.cons (.refl _) (List.rel_append hrm (rewordedAll_refl _))))), rfl, hnear⟩

/-- The same for declarations in a row. -/
theorem Declarations.reword {w : List Token} {ss q : List (Stmt Unit)} :
    ∀ {around : List Bool}, Declarations w ss →
    Stmt.VariesAll r.respelling around (Stmt.desugarAll ss) q → StmtsReworded r Declarations w ss q
  | _, .nil, hv => by
    cases hv
    exact ⟨_, _, .nil, rfl, .nil, id⟩
  | _, .cons h hrest, hv => by
    simp only [Stmt.desugarAll] at hv
    cases hv with
    | cons hv hvs =>
      obtain ⟨w', s', hw', rfl, hr, -, hnear⟩ := h.reword hv
      obtain ⟨v', ss', hv', rfl, hr', hnear'⟩ := hrest.reword hvs
      exact ⟨_, _, .cons hw' hv', rfl, List.rel_append hr hr', fun h => ⟨hnear h.1, hnear' h.2⟩⟩

/-- The same for a block after its opening brace. -/
theorem Body.reword {w : List Token} {ss q : List (Stmt Unit)} :
    ∀ {around : List Bool}, Body w ss → Stmt.VariesAll r.respelling around (Stmt.desugarAll ss) q →
    StmtsReworded r Body w ss q
  | _, .intro h hclosing, hv => by
    obtain ⟨w', ss', hw', hdesugar, hr, hnear⟩ := h.reword hv
    exact ⟨_, ss', .intro hw' hclosing, hdesugar, List.rel_append hr (rewordedAll_refl _), hnear⟩

/-- The same for a function from its name on. -/
theorem Method.reword {w : List Token} {decl q : Routine (Stmt Unit)} :
    ∀ {around : List Bool}, Method w decl →
    Stmt.RoutineVaries r.respelling around (Stmt.desugarRoutine decl) q →
    ∃ w' decl', Method w' decl' ∧ Stmt.desugarRoutine decl' = q ∧ r.RewordedAll w w' ∧
      (Stmt.NearestElseRoutine decl → Stmt.NearestElseRoutine decl')
  | _, .intro hname hopening hparams hclosing hbrace hbody, hv => by
    rw [Stmt.desugarRoutine] at hv
    cases hv with
    | intro here _ hvp hvb =>
      obtain ⟨p', hp', hrp⟩ := hparams.reword hvp
      obtain ⟨b', body', hb', rfl, hrb, hnear⟩ := hbody.reword hvb
      refine ⟨_, _, .intro hname hopening hp' hclosing hbrace hb', rfl,
        .cons (.refl _) (.cons (.refl _) (List.rel_append hrp
          (.cons (.refl _) (.cons (.refl _) hrb)))), ?_⟩
      rw [Stmt.nearestElseRoutine_iff, Stmt.nearestElseRoutine_iff]
      exact hnear

/-- The same for methods in a row. -/
theorem Methods.reword {w : List Token} {ms q : List (Routine (Stmt Unit))} :
    ∀ {around : List Bool}, Methods w ms →
    Stmt.MethodsVary r.respelling around (Stmt.desugarMethods ms) q →
    ∃ w' ms', Methods w' ms' ∧ Stmt.desugarMethods ms' = q ∧ r.RewordedAll w w' ∧
      (Stmt.NearestElseMethods ms → Stmt.NearestElseMethods ms')
  | _, .nil, hv => by
    cases hv
    exact ⟨_, _, .nil, rfl, .nil, id⟩
  | _, .cons h hrest, hv => by
    simp only [Stmt.desugarMethods] at hv
    cases hv with
    | cons hv hvs =>
      obtain ⟨w', m', hw', rfl, hr, hnear⟩ := h.reword hv
      obtain ⟨v', ms', hv', rfl, hr', hnear'⟩ := hrest.reword hvs
      exact ⟨_, _, .cons hw' hv', rfl, List.rel_append hr hr', fun h => ⟨hnear h.1, hnear' h.2⟩⟩

end

end Grammar

/-! ## Programs -/

namespace Program

/-- **A program that differs from one that is read in how names are spelled
is read from the same tokens, respelled.** -/
theorem exists_reworded {r : Renaming} {tokens : List Token} (h : (read tokens).issues = [])
    {p' : Program Unit} (hv : Stmt.VariesAll r.respelling [] (ofTokens tokens) p') :
    ∃ w, r.RewordedAll (ahead tokens) w ∧
      ∀ tokens', ahead tokens' = w → reports tokens' = [] ∧ ofTokens tokens' = p' := by
  obtain ⟨hderived, hnear⟩ := derived_of_read h
  obtain ⟨w, p₀, hw, hdesugar, hr, hnear'⟩ := hderived.reword hv
  refine ⟨w, hr, fun tokens' hahead => ?_⟩
  rw [← hahead] at hw
  have hread := read_of_derived hw (hnear' hnear)
  refine ⟨?_, ?_⟩
  · rw [reports, hread]
    rfl
  · rw [ofTokens, hread, hdesugar]

end Program

end TanLang
