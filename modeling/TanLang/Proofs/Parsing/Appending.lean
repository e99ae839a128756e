import TanLang.Proofs.Lines
import TanLang.Proofs.Parsing.Recovery
/-!
# Parsing — tokens after an accepted program

The parser never looks back over a declaration that it has read, and sees
ahead of one at most an `else`. So tokens behind an accepted program are read
as they are on their own, **whatever they are**: the declarations of both are
what is read, and what is wrong is what is wrong with the second, also where
parsing had to go on after a failure.
-/

namespace TanLang

open Grammar

namespace Parser

/-- Reading declarations takes the first one, and then the others. -/
theorem declarations_cons_eq {n : Nat} {w rest : List Token} {s : Stmt Unit}
    (h : Declaration w s) (hnear : s.NearestElse) (hclosed : ClosedBefore s rest)
    (hn : 32 * (w ++ rest).length + 21 ≤ n + 2) :
    declarations (n + 2) none (w ++ rest) =
      (declarations (n + 1) none >>= fun more => pure (s :: more)) rest := by
  have hgoes : ¬ ((w ++ rest).head?.map Token.kind = none ∨
      (w ++ rest).head?.map Token.kind = none) := by
    obtain ⟨t, u, rfl, -⟩ := startsWith_of_declaration h
    simp
  have hfirst : declaration (n + 1) (w ++ rest) = .ok (some s) rest [] := by
    have hread := yields_of_declaration h hnear rest n hclosed (by omega)
    simp only [declaration, recovering, hread]
  rw [declarations, bind_eq nextKind_eq, if_neg hgoes, bind_eq hfirst]
  rfl

/-- **Declarations are taken one by one**, and what is behind them is read
with what is left of the bound. -/
theorem declarations_append_eq {rest left : List Token} {p : List (Stmt Unit)}
    {issues : List Issue} {enough : Nat} (hbound : 32 * rest.length + 21 ≤ enough)
    (hrest : ∀ m, enough ≤ m → declarations m none rest = .ok p left issues)
    (helse : ∀ t ∈ rest.head?, t.kind ≠ .elseWord) {w : List Token} {ss : List (Stmt Unit)}
    (h : Declarations w ss) (hnear : Stmt.NearestElseAll ss) {n : Nat}
    (hn : 32 * w.length + enough ≤ n) :
    declarations n none (w ++ rest) = .ok (ss ++ p) left issues := by
  induction ss generalizing w n with
  | nil =>
    cases h
    exact hrest n (by omega)
  | cons s ss ih =>
    cases h with
    | @cons w v _ _ hfirst hmore =>
      obtain ⟨n, rfl⟩ : ∃ k, n = k + 2 := ⟨n - 2, by omega⟩
      have hlength : (w ++ v).length = w.length + v.length := List.length_append
      have hpositive : 1 ≤ w.length := by
        obtain ⟨t, u, rfl, -⟩ := startsWith_of_declaration hfirst
        exact Nat.succ_pos _
      have hclosed : ClosedBefore s (v ++ rest) :=
        fun _ => head_ne_of_declarations hmore (by decide) helse
      have hlength' : (w ++ (v ++ rest)).length = w.length + (v.length + rest.length) := by
        simp only [List.length_append]
      rw [List.append_assoc, declarations_cons_eq hfirst hnear.1 hclosed (by omega)]
      change andThen (declarations (n + 1) none) _ (v ++ rest) = _
      rw [andThen, ih hmore hnear.2 (by omega)]
      change Outcome.ok (s :: (ss ++ p)) left (issues ++ []) = _
      rw [List.append_nil, List.cons_append]

end Parser

namespace Program

/-- The tokens end on the same line as those appended last. -/
theorem endLine_append {first second : List Token} (hfirst : ∀ t ∈ first, t.kind ≠ .eof)
    (hsecond : second ≠ []) : endLine (first ++ second) = endLine second := by
  have hnone : (first.find? fun t => t.kind = .eof) = none := by
    simpa only [List.find?_eq_none, decide_eq_true_eq] using hfirst
  have hlast : (first ++ second).getLast? = second.getLast? := by
    rw [List.getLast?_append, List.getLast?_eq_some_getLast hsecond, Option.some_or]
  unfold endLine
  rw [List.find?_append, hnone, Option.none_or, hlast]

/-- **Tokens behind an accepted program are read as on their own**, unless
they begin with an `else`: what is read is the one program and then the
other, and what is reported is what is reported on the second, whatever is
wrong with it. -/
theorem read_after_accepted {first second : List Token} (hfirst : ∀ t ∈ first, t.kind ≠ .eof)
    (haccepted : reports first = []) (helse : ∀ t ∈ second.head?, t.kind ≠ .elseWord) :
    (read (first ++ second)).program = (read first).program ++ (read second).program ∧
      (read (first ++ second)).issues = (read second).issues ∧
      ofTokens (first ++ second) = ofTokens first ++ ofTokens second ∧
      reports (first ++ second) = reports second := by
  have hahead : ahead first = first := ahead_eq_self_iff.2 hfirst
  have happend : ahead (first ++ second) = first ++ ahead second :=
    List.takeWhile_append_of_pos fun t ht => decide_eq_true (hfirst t ht)
  obtain ⟨hderived, hnear⟩ := derived_of_read (List.map_eq_nil_iff.1 haccepted)
  rw [hahead] at hderived
  have helse' : ∀ t ∈ (ahead second).head?, t.kind ≠ .elseWord := by
    intro t ht
    cases second with
    | nil => cases ht
    | cons u rest =>
      rw [ahead, List.takeWhile_cons] at ht
      split at ht
      · cases ht
        exact helse t rfl
      · cases ht
  have hread : read (first ++ second) =
      ⟨(read first).program ++ (read second).program, (read second).issues⟩ := by
    have hwhole := declarations_eq_read (first ++ second) (Nat.le_refl _)
    have hbound : 32 * (ahead second).length + 21 ≤ depthBound (ahead second).length := by
      simp only [depthBound]
      omega
    rw [happend, Parser.declarations_append_eq hbound (fun m => declarations_eq_read second) helse'
      hderived hnear (by simp only [depthBound, List.length_append]; omega)] at hwhole
    injection hwhole with hprogram _ hissues
    rw [hprogram, hissues]
  refine ⟨by rw [hread], by rw [hread], ?_, ?_⟩
  · rw [ofTokens, hread, Stmt.desugarAll_append]
    rfl
  · by_cases hsecond : second = []
    · rw [hsecond, List.append_nil, haccepted]
      rfl
    · simp only [reports, hread, endLine_append hfirst hsecond]

/-- An accepted `if` without an `else`, and behind it a variable without a
name: the one is read, and the other is what is wrong. -/
theorem read_after_accepted_if :
    let first : List Token :=
      [⟨.ifWord, Text.ofString "if", .nil, 1⟩, ⟨.leftParen, Text.ofString "(", .nil, 1⟩,
        ⟨.trueWord, Text.ofString "true", .nil, 1⟩, ⟨.rightParen, Text.ofString ")", .nil, 1⟩,
        ⟨.returnWord, Text.ofString "return", .nil, 1⟩, ⟨.semicolon, Text.ofString ";", .nil, 1⟩]
    let second : List Token :=
      [⟨.varWord, Text.ofString "var", .nil, 2⟩, ⟨.semicolon, Text.ofString ";", .nil, 2⟩]
    (read (first ++ second)).program = (read first).program ++ (read second).program ∧
      (read (first ++ second)).issues = [⟨second[1]?, .variableName⟩] := by
  intro first second
  obtain ⟨hprogram, hissues, -, -⟩ :=
    @read_after_accepted first second (by decide) (by decide) (by decide)
  exact ⟨hprogram, hissues.trans (by decide)⟩

end Program

end TanLang
