import TanLang.Source.Piece
import TanLang.Proofs.Scoping.Core
/-!
# Source — words are told apart

A token that a source is cut into is a word, and then its kind is the one
that the table of keywords gives its spelling; or it is neither an
identifier nor a keyword. So no identifier is spelled like a keyword. The
mark at the end is never cut from the source itself.
-/

namespace TanLang

namespace Source

/-- The kind of a token goes with its spelling. -/
def Told (t : Token) : Prop :=
  t.kind = .ofWord t.lexeme ∨ (t.kind ≠ .identifier ∧ t.kind ≠ .thisWord)

theorem punctuation_told {c : Char} {kind : Token.Kind} (h : punctuation c = some kind) :
    (kind ≠ .identifier ∧ kind ≠ .thisWord) ∧ kind ≠ .eof := by
  unfold punctuation at h
  split at h <;> cases h <;> decide

theorem comparison_told {c : Char} {alone paired : Token.Kind}
    (h : comparison c = some (alone, paired)) :
    ((alone ≠ .identifier ∧ alone ≠ .thisWord) ∧ alone ≠ .eof) ∧
      (paired ≠ .identifier ∧ paired ≠ .thisWord) ∧ paired ≠ .eof := by
  unfold comparison at h
  split at h <;> cases h <;> decide

theorem ofWord_ne_eof (w : Text) : Token.Kind.ofWord w ≠ .eof := by
  unfold Token.Kind.ofWord
  split
  · rename_i k hfind
    have hall : ∀ k ∈ Token.Kind.keywords, k.2 ≠ .eof := by decide
    exact hall k (List.mem_of_find?_eq_some hfind)
  · decide

/-- **A token that is cut off is told by its spelling**, and is not the mark
at the end. -/
theorem cut_told {line : Int} {g : Glyph} {rest : List Glyph} {t : Token}
    (h : (cut line g rest).piece = .token t) : Told t ∧ t.kind ≠ .eof := by
  unfold cut at h
  simp only at h
  split at h
  · cases h
  split at h
  · simp only [cutComment, if_true, reduceCtorEq] at h
  split at h
  · unfold cutComment at h
    split at h
    · cases h
    · split at h <;> cases h
  split at h
  · unfold cutString at h
    split at h
    · cases h
      exact ⟨.inr ⟨nofun, nofun⟩, nofun⟩
    · cases h
  split at h
  · rename_i hpair
    obtain ⟨⟨halone, hend⟩, hpaired, hend'⟩ := comparison_told hpair
    split at h
    · cases h
      exact ⟨.inr hpaired, hend'⟩
    · cases h
      exact ⟨.inr halone, hend⟩
  · rename_i hkind
    obtain ⟨htold, hend⟩ := punctuation_told hkind
    cases h
    exact ⟨.inr htold, hend⟩
  · split at h
    · cases h
      exact ⟨.inl rfl, ofWord_ne_eof _⟩
    split at h
    · cases h
      exact ⟨.inr ⟨nofun, nofun⟩, nofun⟩
    · cases h

theorem told_of_mem_pieces {t : Token} : ∀ (skip : Nat) (line : Int) (gs : List Glyph),
    .token t ∈ piecesAfter skip line gs → Told t := by
  intro skip line gs
  induction gs generalizing skip line with
  | nil =>
    intro h
    rw [piecesAfter, List.mem_singleton] at h
    cases h
    exact .inr ⟨nofun, nofun⟩
  | cons g gs ih =>
    cases skip with
    | succ skip => exact ih skip line
    | zero =>
      intro h
      rw [piecesAfter] at h
      rcases List.mem_cons.1 h with hpiece | hrest
      · exact (cut_told hpiece.symm).1
      · exact ih _ _ hrest

theorem told_of_mem_tokens {src : Text} {t : Token} (h : t ∈ tokens src) : Told t := by
  obtain ⟨piece, hpiece, htoken⟩ := List.mem_filterMap.1 h
  cases piece with
  | token u =>
    cases htoken
    exact told_of_mem_pieces 0 1 (body src) hpiece
  | _ => cases htoken

/-- **The spelling `this` is the keyword's, and no other word's.** -/
theorem ofWord_eq_thisWord {w : Text} (h : Token.Kind.ofWord w = .thisWord) : w = thisName := by
  unfold Token.Kind.ofWord at h
  split at h
  · rename_i k hfind
    have hmem : k ∈ Token.Kind.keywords := List.mem_of_find?_eq_some hfind
    have hspelled := List.find?_some hfind
    have hall : ∀ k ∈ Token.Kind.keywords, k.2 = .thisWord → k.1 = "this" := by decide
    have hthis : Text.ofString k.1 = w := by simpa using hspelled
    rw [← hthis, hall k hmem h]
    rfl
  · cases h

theorem ofWord_thisName : Token.Kind.ofWord thisName = .thisWord := by decide

/-- **In the tokens of a source, words are told apart.** -/
theorem worded_tokens (src : Text) : Grammar.Worded (tokens src) := by
  intro t ht
  rcases told_of_mem_tokens ht with htold | ⟨hidentifier, hkeyword⟩
  · constructor
    · intro hkind hthis
      rw [htold, hthis, ofWord_thisName] at hkind
      cases hkind
    · intro hkind
      rw [htold] at hkind
      exact ofWord_eq_thisWord hkind
  · exact ⟨fun h => absurd h hidentifier, fun h => absurd h hkeyword⟩

end Source

end TanLang
