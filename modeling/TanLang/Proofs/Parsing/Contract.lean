import TanLang.Parser.Statement
/-!
# Parsing — what a parser owes

`Parser.Meets` is the contract that every parser of the library is held
to, on the tokens ahead of it. It does not run out of its bound. If it
gives up, it has complained. If it answers, it has taken at least so many
tokens; and **if it answers without a complaint, its answer is right** for
exactly the tokens it took, and possibly for what it sees ahead.

There is one lemma for each way of putting parsers together, so the
contract of a parser is proved along its definition. An answer that comes
with a complaint is not asked to be right, but it is still asked to leave
fewer tokens: that is what the bound is spent on, and a failed declaration
spends it too.
-/

namespace TanLang

namespace Parser

variable {α β : Type}

/-- **The contract of a parser** on the tokens given: how many of them it
takes at least, and what holds of its answer, the tokens taken and the
tokens left when nothing was complained about. -/
def Meets (p : Parser α) (tokens : List Token) (taken : Nat)
    (Right : α → List Token → List Token → Prop) : Prop :=
  match p tokens with
  | .ok a rest issues =>
    rest.length + taken ≤ tokens.length ∧
      (issues = [] → ∃ w, tokens = w ++ rest ∧ Right a w rest)
  | .failed rest issues => rest.length ≤ tokens.length ∧ issues ≠ []
  | .exhausted => False

/-- Skipping leaves no more tokens than there were. -/
theorem length_skipAfter_le (last : Token) (tokens : List Token) :
    (skipAfter last tokens).length ≤ tokens.length := by
  induction tokens generalizing last with
  | nil => exact Nat.le_refl _
  | cons t rest ih =>
    rw [skipAfter]
    split
    · exact Nat.le_refl _
    · have := ih t
      simp only [List.length_cons]
      omega

namespace Meets

variable {p : Parser α} {f : α → Parser β} {tokens : List Token} {k j : Nat}
variable {Right : α → List Token → List Token → Prop}
variable {Then : β → List Token → List Token → Prop}

/-- Less may be asked of the same parser. -/
theorem mono {Right' : α → List Token → List Token → Prop} (h : Meets p tokens k Right)
    (hk : j ≤ k) (hright : ∀ a w rest, Right a w rest → Right' a w rest) :
    Meets p tokens j Right' := by
  unfold Meets at h ⊢
  cases hp : p tokens with
  | ok a rest issues =>
    simp only [hp] at h ⊢
    refine ⟨by omega, fun hissues => ?_⟩
    obtain ⟨w, hw, hr⟩ := h.2 hissues
    exact ⟨w, hw, hright a w rest hr⟩
  | failed rest issues => simpa only [hp] using h
  | exhausted => simp only [hp] at h

/-- **One parser after another.** The second is held to its contract
wherever the first may leave it; what it answers is right only if what the
first answered was. -/
theorem bind_add (hp : Meets p tokens k Right)
    (hf : ∀ a rest, rest.length + k ≤ tokens.length →
      Meets (f a) rest j fun b v rest' => ∀ w, Right a w rest → Then b (w ++ v) rest') :
    Meets (p >>= f) tokens (k + j) Then := by
  change match (andThen p f) tokens with
    | .ok b rest issues => _
    | .failed rest issues => _
    | .exhausted => False
  unfold Meets at hp
  unfold andThen
  cases hpt : p tokens with
  | failed rest issues => simpa only [hpt] using hp
  | exhausted => simp only [hpt] at hp
  | ok a rest issues =>
    simp only [hpt] at hp ⊢
    have hfa := hf a rest hp.1
    unfold Meets at hfa
    cases hft : f a rest with
    | exhausted => simp only [hft] at hfa
    | failed rest' issues' =>
      simp only [hft, Outcome.after] at hfa ⊢
      exact ⟨by omega, by simp [hfa.2]⟩
    | ok b rest' issues' =>
      simp only [hft, Outcome.after] at hfa ⊢
      refine ⟨by omega, fun hissues => ?_⟩
      -- without an issue from either, both have read what they should
      rw [List.append_eq_nil_iff] at hissues
      obtain ⟨w, hw, hr⟩ := hp.2 hissues.1
      obtain ⟨v, hv, hthen⟩ := hfa.2 hissues.2
      exact ⟨w ++ v, by rw [hw, hv, List.append_assoc], hthen w hr⟩

/-- One parser after another, of which the first takes tokens enough. -/
theorem bind (hj : j ≤ k) (hp : Meets p tokens k Right)
    (hf : ∀ a rest, rest.length + k ≤ tokens.length →
      Meets (f a) rest 0 fun b v rest' => ∀ w, Right a w rest → Then b (w ++ v) rest') :
    Meets (p >>= f) tokens j Then :=
  (bind_add hp hf).mono hj fun _ _ _ h => h

/-- A value made of the answer. -/
theorem map {g : α → β} (hp : Meets p tokens k Right) :
    Meets (g <$> p) tokens k fun b w rest => ∃ a, b = g a ∧ Right a w rest := by
  refine bind (Nat.le_refl _) hp fun a rest _ => ?_
  refine ⟨Nat.le_refl _, fun _ => ⟨[], rfl, fun w h => ?_⟩⟩
  rw [List.append_nil]
  exact ⟨a, rfl, h⟩

/-- An answer without reading. -/
theorem pure {a : α} (h : Right a [] tokens) : Meets (pure a) tokens 0 Right :=
  ⟨Nat.le_refl _, fun _ => ⟨[], rfl, h⟩⟩

/-- Giving up. -/
theorem giveUp {c : Complaint} : Meets (Parser.giveUp c) tokens k Right :=
  ⟨Nat.le_refl _, List.cons_ne_nil _ _⟩

/-- A complaint, after which no answer has to be right. -/
theorem complain {f : Unit → Parser β} {t : Option Token} {c : Complaint}
    (h : Meets (f ()) tokens k fun _ _ _ => True) :
    Meets (Parser.complain t c >>= f) tokens k Then := by
  change match (f () tokens).after [⟨t, c⟩] with
    | .ok b rest issues => _
    | .failed rest issues => _
    | .exhausted => False
  unfold Meets at h
  cases hft : f () tokens with
  | exhausted => simp only [hft] at h
  | failed rest issues =>
    simp only [hft, Outcome.after] at h ⊢
    exact ⟨h.1, List.cons_ne_nil _ _⟩
  | ok b rest issues =>
    simp only [hft, Outcome.after] at h ⊢
    exact ⟨h.1, fun hissues => absurd hissues (List.cons_ne_nil _ _)⟩

/-- A parser whose answer is known, and another one after it. -/
theorem step {a : α} {w rest : List Token} (hp : p tokens = .ok a rest [])
    (hw : tokens = w ++ rest)
    (hf : Meets (f a) rest (k - w.length) fun b v rest' => Then b (w ++ v) rest') :
    Meets (p >>= f) tokens k Then := by
  have hlength : tokens.length = w.length + rest.length := by rw [hw, List.length_append]
  change match (andThen p f) tokens with
    | .ok b rest issues => _
    | .failed rest issues => _
    | .exhausted => False
  unfold andThen
  unfold Meets at hf
  simp only [hp]
  cases hft : f a rest with
  | exhausted => simp only [hft] at hf
  | failed rest' issues =>
    simp only [hft, Outcome.after, List.nil_append] at hf ⊢
    exact ⟨by omega, hf.2⟩
  | ok b rest' issues =>
    simp only [hft, Outcome.after, List.nil_append] at hf ⊢
    refine ⟨by omega, fun hissues => ?_⟩
    obtain ⟨v, hv, hthen⟩ := hf.2 hissues
    exact ⟨w ++ v, by rw [hw, hv, List.append_assoc], hthen⟩

/-- A look at the next token. -/
theorem next {f : Option Token → Parser β} (h : Meets (f tokens.head?) tokens k Then) :
    Meets (Parser.next >>= f) tokens k Then :=
  step (w := []) rfl rfl h

/-- A complaint where there is no room left; nothing is asked of what is
read then. -/
theorem limited {full : Prop} [Decidable full] {c : Complaint} {f : Unit → Parser β}
    (h : Meets (f ()) tokens k fun b w rest => ¬ full → Then b w rest) :
    Meets (if full then Parser.next >>= fun t => Parser.complain t c >>= f else f ())
      tokens k Then := by
  split
  case isTrue => exact next (complain (h.mono (Nat.le_refl _) fun _ _ _ _ => trivial))
  case isFalse hroom => exact h.mono (Nat.le_refl _) fun _ _ _ hright => hright hroom

/-- A look at the kind of the next token. -/
theorem nextKind {f : Option Token.Kind → Parser β}
    (h : Meets (f (tokens.head?.map Token.kind)) tokens k Then) :
    Meets (Parser.nextKind >>= f) tokens k Then :=
  step (w := []) rfl rfl h

/-- A token taken if it is wanted. -/
theorem acceptWhere {wanted : Token.Kind → Bool} {f : Option Token → Parser β}
    (hnone : (∀ t ∈ tokens.head?, wanted t.kind = false) → Meets (f none) tokens k Then)
    (hsome : ∀ t rest, tokens = t :: rest → wanted t.kind = true →
      Meets (f (some t)) rest (k - 1) fun b v rest' => Then b (t :: v) rest') :
    Meets (Parser.acceptWhere wanted >>= f) tokens k Then := by
  cases tokens with
  | nil => exact step (w := []) rfl rfl (hnone (by simp))
  | cons t rest =>
    by_cases hwanted : wanted t.kind = true
    · refine step (w := [t]) ?_ rfl (hsome t rest rfl hwanted)
      simp only [Parser.acceptWhere, hwanted, if_true]
    · refine step (w := []) ?_ rfl (hnone ?_)
      · simp only [Parser.acceptWhere, if_neg hwanted]
      · simpa using hwanted

/-- A token taken if it is of a kind. -/
theorem accept {kind : Token.Kind} {f : Option Token → Parser β}
    (hnone : (∀ t ∈ tokens.head?, t.kind ≠ kind) → Meets (f none) tokens k Then)
    (hsome : ∀ t rest, tokens = t :: rest → t.kind = kind →
      Meets (f (some t)) rest (k - 1) fun b v rest' => Then b (t :: v) rest') :
    Meets (Parser.accept kind >>= f) tokens k Then := by
  refine acceptWhere (fun h => hnone fun t ht => ?_) fun t rest h hkind => ?_
  · simpa using h t ht
  · exact hsome t rest h (by simpa using hkind)

/-- A token that has to be of a kind. -/
theorem expect {kind : Token.Kind} {c : Complaint} {f : Token → Parser β}
    (h : ∀ t rest, tokens = t :: rest → t.kind = kind →
      Meets (f t) rest (k - 1) fun b v rest' => Then b (t :: v) rest') :
    Meets (Parser.expect kind c >>= f) tokens k Then := by
  cases tokens with
  | nil => exact ⟨Nat.le_refl _, List.cons_ne_nil _ _⟩
  | cons t rest =>
    by_cases hkind : t.kind = kind
    · refine step (w := [t]) ?_ rfl (h t rest rfl hkind)
      simp only [Parser.expect, if_pos hkind]
    · change match andThen (Parser.expect kind c) f (t :: rest) with
        | .ok b rest issues => _
        | .failed rest issues => _
        | .exhausted => False
      simp only [andThen, Parser.expect, if_neg hkind]
      exact ⟨Nat.le_refl _, List.cons_ne_nil _ _⟩

/-- A token that has to be of a kind, and nothing after it. -/
theorem expect_last {kind : Token.Kind} {c : Complaint} :
    Meets (Parser.expect kind c) tokens 1 fun t w _ => w = [t] ∧ t.kind = kind := by
  cases tokens with
  | nil => exact ⟨Nat.le_refl _, List.cons_ne_nil _ _⟩
  | cons t rest =>
    unfold Meets
    by_cases hkind : t.kind = kind
    · simp only [Parser.expect, if_pos hkind]
      exact ⟨Nat.le_refl _, fun _ => ⟨[t], rfl, rfl, hkind⟩⟩
    · simp only [Parser.expect, if_neg hkind]
      exact ⟨Nat.le_refl _, List.cons_ne_nil _ _⟩

/-- The atom that the next token is, if it is one. -/
theorem atom {f : Option (Expr Unit) → Parser β}
    (hnone : Meets (f none) tokens k Then)
    (hsome : ∀ t rest e, tokens = t :: rest → atomOf t = some e →
      Meets (f (some e)) rest (k - 1) fun b v rest' => Then b (t :: v) rest') :
    Meets (Parser.atom >>= f) tokens k Then := by
  cases tokens with
  | nil => exact step (w := []) rfl rfl hnone
  | cons t rest =>
    cases hatom : atomOf t with
    | none =>
      refine step (w := []) ?_ rfl hnone
      simp only [Parser.atom, hatom]
    | some e =>
      refine step (w := [t]) ?_ rfl (hsome t rest e rfl hatom)
      simp only [Parser.atom, hatom]

/-- **Recovery takes at least one token**: the offending one is skipped. -/
theorem recovering (h : Meets p tokens k Right) (htokens : tokens ≠ []) (hk : 1 ≤ k) :
    Meets (Parser.recovering p) tokens 1 fun o w rest => ∃ a, o = some a ∧ Right a w rest := by
  have hpos : 0 < tokens.length := List.length_pos_iff.2 htokens
  unfold Meets at h ⊢
  unfold Parser.recovering
  cases hp : p tokens with
  | exhausted => simp only [hp] at h
  | failed rest issues =>
    simp only [hp] at h ⊢
    refine ⟨?_, fun hissues => absurd hissues h.2⟩
    cases rest with
    | nil => exact hpos
    | cons t rest =>
      have := length_skipAfter_le t rest
      simp only [recover, List.length_cons] at h ⊢
      omega
  | ok a rest issues =>
    simp only [hp] at h ⊢
    refine ⟨by omega, fun hissues => ?_⟩
    obtain ⟨w, hw, hright⟩ := h.2 hissues
    exact ⟨w, hw, a, rfl, hright⟩

end Meets

end Parser

end TanLang
