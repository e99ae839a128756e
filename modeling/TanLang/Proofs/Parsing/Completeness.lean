import TanLang.Proofs.Parsing.Soundness
/-!
# Parsing — what can be derived is accepted

On tokens that start with a derived expression, the parser reads exactly
that and answers with its tree and no complaint, provided that what is ahead
cannot be taken for more of it: `Stops` says so of the kind of the next
token.

Operators and calls are derived to the left but read in a loop. What a
derivation of them yields is therefore stated with the loop still to go:
whatever the loop makes of the rest is what the whole makes of it.
-/

namespace TanLang

open Grammar

namespace Parser

variable {α β : Type}

/-! ## Reading what is known to be ahead -/

/-- A parser whose answer is known, and another one after it. -/
theorem bind_eq {p : Parser α} {f : α → Parser β} {tokens rest : List Token} {a : α}
    (hp : p tokens = .ok a rest []) : (p >>= f) tokens = f a rest := by
  change andThen p f tokens = _
  simp only [andThen, hp]
  cases f a rest <;> rfl

theorem map_eq {p : Parser α} {g : α → β} {tokens rest : List Token} {a : α}
    (hp : p tokens = .ok a rest []) : (g <$> p) tokens = .ok (g a) rest [] :=
  bind_eq (f := fun a => pure (g a)) hp

theorem pure_bind_eq {f : α → Parser β} {a : α} : (pure a >>= f) = f a :=
  funext fun _ => bind_eq rfl

theorem accept_eq_some {kind : Token.Kind} {t : Token} {rest : List Token} (h : t.kind = kind) :
    accept kind (t :: rest) = .ok (some t) rest [] := by
  simp [accept, acceptWhere, h]

theorem accept_eq_none {kind : Token.Kind} {tokens : List Token}
    (h : ∀ t ∈ tokens.head?, t.kind ≠ kind) : accept kind tokens = .ok none tokens [] := by
  cases tokens with
  | nil => rfl
  | cons t rest =>
    have hne : t.kind ≠ kind := h t rfl
    simp [accept, acceptWhere, hne]

theorem acceptWhere_eq_some {wanted : Token.Kind → Bool} {t : Token} {rest : List Token}
    (h : wanted t.kind = true) : acceptWhere wanted (t :: rest) = .ok (some t) rest [] := by
  simp only [acceptWhere, h, if_true]

theorem acceptWhere_eq_none {wanted : Token.Kind → Bool} {tokens : List Token}
    (h : ∀ t ∈ tokens.head?, wanted t.kind = false) :
    acceptWhere wanted tokens = .ok none tokens [] := by
  cases tokens with
  | nil => rfl
  | cons t rest =>
    have hunwanted : wanted t.kind = false := h t rfl
    simp only [acceptWhere, hunwanted, Bool.false_eq_true, if_false]

theorem expect_eq {kind : Token.Kind} {c : Complaint} {t : Token} {rest : List Token}
    (h : t.kind = kind) : expect kind c (t :: rest) = .ok t rest [] := by
  simp only [expect, h, if_true]

theorem nextKind_eq {tokens : List Token} :
    nextKind tokens = .ok (tokens.head?.map Token.kind) tokens [] := rfl

/-! ## What does not go on -/

/-- A tier and those that bind tighter. -/
def tiersFrom : Tier → List Tier
  | .disjunction => [.disjunction, .conjunction, .equality, .comparison, .sum, .product]
  | .conjunction => [.conjunction, .equality, .comparison, .sum, .product]
  | .equality => [.equality, .comparison, .sum, .product]
  | .comparison => [.comparison, .sum, .product]
  | .sum => [.sum, .product]
  | .product => [.product]

/-- The kinds that go on with an expression of a tier. -/
def tierFollowers (t : Tier) : List Token.Kind :=
  (tiersFrom t).flatMap operators ++ [.leftParen, .period]

/-- The kinds that go on with an expression of a level. -/
def followers : Level → List Token.Kind
  | .assignment => .assign :: .question :: tierFollowers .disjunction
  | .choice => .question :: tierFollowers .disjunction
  | .chain t => tierFollowers t
  | .sign => [.leftParen, .period]
  | .call => [.leftParen, .period]
  | .primary => []

/-- **What is ahead cannot be taken for more of an expression.** -/
def Stops (level : Level) (rest : List Token) : Prop :=
  ∀ t ∈ rest.head?, t.kind ∉ followers level

theorem stops_cons {level : Level} {t : Token} {rest : List Token}
    (h : t.kind ∉ followers level) : Stops level (t :: rest) := by
  intro t' ht'
  obtain rfl : t = t' := by simpa using ht'
  exact h

/-- A token whose kind is known not to go on. -/
theorem stops_of_kind {level : Level} {t : Token} {rest : List Token} {kind : Token.Kind}
    (h : t.kind = kind) (hkind : kind ∉ followers level) :
    Stops level (t :: rest) :=
  stops_cons (h ▸ hkind)

theorem Stops.mono {level tighter : Level} {rest : List Token} (h : Stops level rest)
    (hsub : followers tighter ⊆ followers level) : Stops tighter rest :=
  fun t ht hmem => h t ht (hsub hmem)

/-- What stops a chain stops its operands, too. -/
theorem followers_between_subset (t : Tier) : followers (between t) ⊆ followers (.chain t) := by
  cases t <;> decide

/-- **An operator stops the operands of its tier.** -/
theorem stops_operator {t : Tier} {op : Token} {rest : List Token}
    (h : op.kind ∈ operators t) : Stops (between t) (op :: rest) := by
  refine stops_cons ?_
  have hall : ∀ k ∈ operators t, k ∉ followers (between t) := by cases t <;> decide
  exact hall _ h

/-- What stops a chain is none of its operators. -/
theorem Stops.not_takes {t : Tier} {rest : List Token} (h : Stops (.chain t) rest) :
    ∀ u ∈ rest.head?, t.takes u.kind = false := by
  intro u hu
  have hall : ∀ k ∈ operators t, k ∈ followers (.chain t) := by cases t <;> decide
  refine Bool.eq_false_iff.2 fun htakes => ?_
  exact h u hu (hall _ ((takes_eq t u.kind).1 htakes))

/-! ## How an expression starts -/

/-- The kinds that an atom starts with. -/
def atomStarts : List Token.Kind :=
  [.falseWord, .trueWord, .nilWord, .number, .string, .thisWord, .identifier, .leftParen]

/-- The kinds that an expression of a level starts with. -/
def starts : Level → List Token.Kind
  | .call => atomStarts
  | .primary => atomStarts
  | _ => .bang :: .minus :: atomStarts

/-- A list of tokens that starts with one of a kind given. -/
def StartsWith (kinds : List Token.Kind) (w : List Token) : Prop :=
  ∃ t v, w = t :: v ∧ t.kind ∈ kinds

theorem StartsWith.append {kinds : List Token.Kind} {w v : List Token}
    (h : StartsWith kinds w) : StartsWith kinds (w ++ v) := by
  obtain ⟨t, u, rfl, ht⟩ := h
  exact ⟨t, u ++ v, rfl, ht⟩

theorem StartsWith.mono {kinds kinds' : List Token.Kind} {w : List Token}
    (h : StartsWith kinds w) (hsub : kinds ⊆ kinds') : StartsWith kinds' w := by
  obtain ⟨t, u, rfl, ht⟩ := h
  exact ⟨t, u, rfl, hsub ht⟩

/-- What starts otherwise is not of the kinds in question. -/
theorem StartsWith.head_ne {kinds : List Token.Kind} {w : List Token}
    (h : StartsWith kinds w) (kind : Token.Kind) (hkind : kind ∉ kinds) :
    ∀ t ∈ w.head?, t.kind ≠ kind := by
  obtain ⟨t, u, rfl, ht⟩ := h
  intro t' ht' hk
  obtain rfl : t = t' := by simpa using ht'
  exact hkind (hk ▸ ht)

/-- A token whose kind is known is of no other kind. -/
theorem head_ne_of_kind {t : Token} {rest : List Token} {known kind : Token.Kind}
    (h : t.kind = known) (hne : known ≠ kind) :
    ∀ u ∈ (t :: rest).head?, u.kind ≠ kind := by
  intro u hu
  obtain rfl : t = u := by simpa using hu
  exact h ▸ hne

/-- The operands of a tier start as its chains do. -/
theorem starts_between (t : Tier) : starts (between t) ⊆ starts (.chain t) := by
  cases t <;> exact fun _ h => h

/-- **Every expression starts with a token that starts one.** -/
theorem startsWith_of_expression {level : Level} {w : List Token} {e : Expr Unit} :
    Expression level w e → StartsWith (starts level) w
  | .assign hname _ _ => ⟨_, _, rfl, by rw [hname]; decide⟩
  | .assignField hobject _ _ _ _ =>
    ((startsWith_of_expression hobject).mono (by decide)).append
  | .assignNone h => (startsWith_of_expression h).mono fun _ h => h
  | .choice hcond _ _ _ _ => ((startsWith_of_expression hcond).mono fun _ h => h).append
  | .choiceNone h => (startsWith_of_expression h).mono fun _ h => h
  | .chain hleft _ _ => (startsWith_of_expression hleft).append
  | .chainNone h => (startsWith_of_expression h).mono (starts_between _)
  | .sign hop _ => ⟨_, _, rfl, by rcases hop with h | h <;> rw [h] <;> decide⟩
  | .signNone h => (startsWith_of_expression h).mono (by decide)
  | .invoke hcallee _ _ => (startsWith_of_expression hcallee).append
  | .invokeWith hcallee _ _ _ _ => (startsWith_of_expression hcallee).append
  | .property hobject _ _ => (startsWith_of_expression hobject).append
  | .callNone h => (startsWith_of_expression h).mono fun _ h => h
  | .constant h => ⟨_, _, rfl, by cases h with
    | falsity h | truth h | nothing h | number h | string h => rw [h]; decide⟩
  | .receiver h => ⟨_, _, rfl, by rw [h]; decide⟩
  | .name h => ⟨_, _, rfl, by rw [h]; decide⟩
  | .grouping hopening _ _ => ⟨_, _, rfl, by rw [hopening]; decide⟩

/-! ## Expressions -/

/-- **What the parser of a level makes of something derived from it**, with
whatever is ahead of it. Of a chain and of a call it says what the loop
after them still has to do. -/
def Yields : Level → List Token → Expr Unit → Prop
  | .assignment, w, e => ∀ rest n, Stops .assignment rest →
    32 * (w ++ rest).length + 17 ≤ n → assignment n (w ++ rest) = .ok e rest []
  | .choice, w, e => ∀ rest n, Stops .choice rest →
    32 * (w ++ rest).length + 16 ≤ n → ternary n (w ++ rest) = .ok e rest []
  | .chain t, w, e => ∀ rest n o, Stops (between t) rest →
    32 * (w ++ rest).length + t.rank ≤ n →
    (∀ m, 32 * rest.length + 1 ≤ m → tierRest m t e rest = o) → tier n t (w ++ rest) = o
  | .sign, w, e => ∀ rest n, Stops .sign rest →
    32 * (w ++ rest).length + 3 ≤ n → unary n (w ++ rest) = .ok e rest []
  | .call, w, e => ∀ rest n o, 32 * (w ++ rest).length + 2 ≤ n →
    (∀ m, 32 * rest.length + 1 ≤ m → callRest m e rest = o) → call n (w ++ rest) = o
  | .primary, w, e => ∀ rest n,
    32 * (w ++ rest).length + 1 ≤ n → primary n (w ++ rest) = .ok e rest []

namespace Yields

variable {w : List Token} {e : Expr Unit}

/-- A chain that is not gone on with is read whole. -/
theorem tier {t : Tier} (h : Yields (.chain t) w e) {rest : List Token} {n : Nat}
    (hrest : Stops (.chain t) rest) (hn : 32 * (w ++ rest).length + t.rank ≤ n) :
    Parser.tier n t (w ++ rest) = .ok e rest [] := by
  -- the loop finds no operator of the tier ahead and ends at once
  refine h rest n _ (hrest.mono (followers_between_subset t)) hn fun m hm => ?_
  obtain ⟨m, rfl⟩ : ∃ k, m = k + 1 := ⟨m - 1, by omega⟩
  rw [tierRest, bind_eq (acceptWhere_eq_none hrest.not_takes)]
  rfl

/-- An operand is read whole. -/
theorem operand {t : Tier} (h : Yields (between t) w e) {rest : List Token} {n : Nat}
    (hrest : Stops (between t) rest) (hn : 32 * (w ++ rest).length + t.rank ≤ n + 1) :
    Parser.operand n t (w ++ rest) = .ok e rest [] := by
  have hrank : 5 ≤ t.rank := by cases t <;> simp [Tier.rank]
  obtain ⟨n, rfl⟩ : ∃ k, n = k + 1 := ⟨n - 1, by omega⟩
  rw [Parser.operand]
  -- the operands of the tightest tier are signs, those of the others chains
  cases t <;> simp only [Tier.rank] at hn
  case product => exact h rest n hrest (by omega)
  all_goals exact tier h hrest (by simp only [Tier.rank]; omega)

theorem callNone (h : Yields .primary w e) : Yields .call w e := by
  intro rest n o hn hloop
  obtain ⟨n, rfl⟩ : ∃ k, n = k + 1 := ⟨n - 1, by omega⟩
  have hlength : (w ++ rest).length = w.length + rest.length := List.length_append
  rw [call, bind_eq (h rest n (by omega))]
  exact hloop n (by omega)

theorem signNone (h : Yields .call w e) (hw : StartsWith atomStarts w) : Yields .sign w e := by
  intro rest n hrest hn
  obtain ⟨n, rfl⟩ : ∃ k, n = k + 1 := ⟨n - 1, by omega⟩
  have hhead : ∀ t ∈ (w ++ rest).head?, (t.kind == .bang || t.kind == .minus) = false := by
    intro t ht
    have hbang : t.kind ≠ .bang := hw.append.head_ne .bang (by decide) t ht
    have hminus : t.kind ≠ .minus := hw.append.head_ne .minus (by decide) t ht
    simp [hbang, hminus]
  have hplus : (w ++ rest).head?.map Token.kind ≠ some .plus := by
    obtain ⟨t, v, rfl, ht⟩ := hw
    intro hk
    have hk' : t.kind = .plus := by simpa using hk
    rw [hk'] at ht
    revert ht
    decide
  rw [unary]
  refine (bind_eq (acceptWhere_eq_none hhead)).trans ((bind_eq nextKind_eq).trans ?_)
  rw [if_neg hplus]
  refine h rest n _ (by omega) fun m hm => ?_
  obtain ⟨m, rfl⟩ : ∃ k, m = k + 1 := ⟨m - 1, by omega⟩
  have hparen : ∀ t ∈ rest.head?, t.kind ≠ .leftParen := fun t ht hk =>
    hrest t ht (by rw [hk]; decide)
  have hperiod : ∀ t ∈ rest.head?, t.kind ≠ .period := fun t ht hk =>
    hrest t ht (by rw [hk]; decide)
  rw [callRest]
  exact (bind_eq (accept_eq_none hparen)).trans (bind_eq (accept_eq_none hperiod))

theorem atom {t : Token} (h : atomOf t = some e) : Yields .primary [t] e := by
  intro rest n hn
  obtain ⟨n, rfl⟩ : ∃ k, n = k + 1 := ⟨n - 1, by omega⟩
  have hatom : Parser.atom (t :: rest) = .ok (some e) rest [] := by
    simp only [Parser.atom, h]
  rw [primary]
  exact bind_eq hatom

theorem grouping {opening closing : Token} (hopening : opening.kind = .leftParen)
    (h : Yields .assignment w e) (hclosing : closing.kind = .rightParen) :
    Yields .primary (opening :: (w ++ [closing])) (.grouping opening e) := by
  intro rest n hn
  obtain ⟨n, rfl⟩ : ∃ k, n = k + 1 := ⟨n - 1, by omega⟩
  have htokens : opening :: (w ++ [closing]) ++ rest = opening :: (w ++ closing :: rest) := by
    simp
  rw [htokens] at hn ⊢
  have hatom : Parser.atom (opening :: (w ++ closing :: rest)) =
      .ok none (opening :: (w ++ closing :: rest)) [] := by
    simp only [Parser.atom, atomOf, literalOf, hopening]
  rw [primary]
  refine (bind_eq hatom).trans ((bind_eq (accept_eq_some hopening)).trans ?_)
  simp only [List.length_cons] at hn
  refine (bind_eq (h (closing :: rest) n (stops_of_kind hclosing (by decide)) (by omega))).trans ?_
  exact bind_eq (expect_eq hclosing)

theorem property {dot name : Token} (h : Yields .call w e) (hdot : dot.kind = .period)
    (hname : name.kind = .identifier) : Yields .call (w ++ [dot, name]) (.get e name) := by
  intro rest n o hn hloop
  have htokens : w ++ [dot, name] ++ rest = w ++ dot :: name :: rest := by simp
  rw [htokens] at hn ⊢
  refine h _ n o hn fun m hm => ?_
  simp only [List.length_cons] at hm
  obtain ⟨m, rfl⟩ : ∃ k, m = k + 1 := ⟨m - 1, by omega⟩
  have hparen : ∀ t ∈ (dot :: name :: rest).head?, t.kind ≠ .leftParen :=
    head_ne_of_kind hdot (by decide)
  rw [callRest]
  refine (bind_eq (accept_eq_none hparen)).trans ((bind_eq (accept_eq_some hdot)).trans ?_)
  refine (bind_eq (expect_eq hname)).trans ?_
  exact hloop m (by omega)

theorem invoke {opening closing : Token} (h : Yields .call w e)
    (hopening : opening.kind = .leftParen) (hclosing : closing.kind = .rightParen) :
    Yields .call (w ++ [opening, closing]) (.call e closing []) := by
  intro rest n o hn hloop
  have htokens : w ++ [opening, closing] ++ rest = w ++ opening :: closing :: rest := by simp
  rw [htokens] at hn ⊢
  refine h _ n o hn fun m hm => ?_
  simp only [List.length_cons] at hm
  obtain ⟨m, rfl⟩ : ∃ k, m = k + 1 := ⟨m - 1, by omega⟩
  rw [callRest]
  refine (bind_eq (accept_eq_some hopening)).trans ((bind_eq nextKind_eq).trans ?_)
  have hkind : (closing :: rest).head?.map Token.kind = some .rightParen := by simp [hclosing]
  rw [if_pos hkind, pure_bind_eq]
  exact (bind_eq (expect_eq hclosing)).trans (hloop m (by omega))

/-- **What the parser makes of arguments** with a closing parenthesis ahead,
of which it has read `count` before. -/
def Listed (w : List Token) (args : List (Expr Unit)) : Prop :=
  ∀ closing rest n count, closing.kind = .rightParen → count + args.length ≤ maxEntries →
    32 * (w ++ closing :: rest).length + 18 ≤ n →
    arguments n count (w ++ closing :: rest) = .ok args (closing :: rest) []

theorem Listed.one (h : Yields .assignment w e) : Listed w [e] := by
  intro closing rest n count hclosing hcount hn
  obtain ⟨n, rfl⟩ : ∃ k, n = k + 1 := ⟨n - 1, by omega⟩
  have hfew : ¬ maxArguments ≤ count := by
    simp only [maxEntries, List.length_cons, List.length_nil] at hcount
    simp only [maxArguments]
    omega
  rw [arguments, if_neg hfew]
  refine (bind_eq (h (closing :: rest) n (stops_of_kind hclosing (by decide)) (by omega))).trans ?_
  exact bind_eq (accept_eq_none (head_ne_of_kind hclosing (by decide)))

theorem Listed.more {comma : Token} {v : List Token} {es : List (Expr Unit)}
    (h : Yields .assignment w e) (hcomma : comma.kind = .comma) (hes : Listed v es) :
    Listed (w ++ comma :: v) (e :: es) := by
  intro closing rest n count hclosing hcount hn
  obtain ⟨n, rfl⟩ : ∃ k, n = k + 1 := ⟨n - 1, by omega⟩
  simp only [List.length_cons] at hcount
  have hfew : ¬ maxArguments ≤ count := by
    simp only [maxEntries] at hcount
    simp only [maxArguments]
    omega
  have htokens : w ++ comma :: v ++ closing :: rest = w ++ comma :: (v ++ closing :: rest) := by
    simp
  rw [htokens] at hn ⊢
  rw [arguments, if_neg hfew]
  refine (bind_eq (h _ n (stops_of_kind hcomma (by decide)) (by omega))).trans ?_
  refine (bind_eq (accept_eq_some hcomma)).trans ?_
  simp only [List.length_append, List.length_cons] at hn
  refine (bind_eq (hes closing rest n (count + 1) hclosing (by omega) ?_)).trans rfl
  simp only [List.length_append, List.length_cons]
  omega

theorem invokeWith {opening closing : Token} {a : List Token} {args : List (Expr Unit)}
    (h : Yields .call w e) (hopening : opening.kind = .leftParen)
    (hstart : StartsWith (starts .assignment) a) (hargs : Listed a args)
    (hcount : args.length ≤ maxEntries) (hclosing : closing.kind = .rightParen) :
    Yields .call (w ++ opening :: (a ++ [closing])) (.call e closing args) := by
  intro rest n o hn hloop
  have htokens : w ++ opening :: (a ++ [closing]) ++ rest =
      w ++ opening :: (a ++ closing :: rest) := by simp
  rw [htokens] at hn ⊢
  refine h _ n o hn fun m hm => ?_
  simp only [List.length_cons] at hm
  obtain ⟨m, rfl⟩ : ∃ k, m = k + 1 := ⟨m - 1, by omega⟩
  rw [callRest]
  refine (bind_eq (accept_eq_some hopening)).trans ((bind_eq nextKind_eq).trans ?_)
  have hkind : (a ++ closing :: rest).head?.map Token.kind ≠ some .rightParen := by
    intro hk
    obtain ⟨t, ht, htk⟩ := Option.map_eq_some_iff.1 hk
    exact hstart.append.head_ne .rightParen (by decide) t ht htk
  rw [if_neg hkind]
  refine (bind_eq (hargs closing rest m 0 hclosing (by omega) (by omega))).trans ?_
  refine (bind_eq (expect_eq hclosing)).trans (hloop m ?_)
  simp only [List.length_append, List.length_cons] at hm
  omega

theorem sign {op : Token} (hop : op.kind = .bang ∨ op.kind = .minus) (h : Yields .sign w e) :
    Yields .sign (op :: w) (.unary op e) := by
  intro rest n hrest hn
  obtain ⟨n, rfl⟩ : ∃ k, n = k + 1 := ⟨n - 1, by omega⟩
  have hwanted : (op.kind == .bang || op.kind == .minus) = true := by
    rcases hop with hop | hop <;> simp [hop]
  simp only [List.cons_append, List.length_cons] at hn
  rw [unary]
  refine (bind_eq (acceptWhere_eq_some hwanted)).trans ?_
  exact bind_eq (h rest n hrest (by omega))

theorem chainNone {t : Tier} (h : Yields (between t) w e) : Yields (.chain t) w e := by
  intro rest n o hrest hn hloop
  have hrank : 5 ≤ t.rank := by cases t <;> simp [Tier.rank]
  obtain ⟨n, rfl⟩ : ∃ k, n = k + 1 := ⟨n - 1, by omega⟩
  rw [Parser.tier]
  refine (bind_eq (operand h hrest (by omega))).trans (hloop n ?_)
  simp only [List.length_append] at hn
  omega

theorem chain {t : Tier} {op : Token} {r : List Token} {right : Expr Unit}
    (h : Yields (.chain t) w e) (hop : op.kind ∈ operators t)
    (hright : Yields (between t) r right) :
    Yields (.chain t) (w ++ op :: r) (t.node e op right) := by
  intro rest n o hrest hn hloop
  have htokens : w ++ op :: r ++ rest = w ++ op :: (r ++ rest) := by simp
  rw [htokens] at hn ⊢
  refine h _ n o (stops_operator hop) hn fun m hm => ?_
  simp only [List.length_cons, List.length_append] at hm
  obtain ⟨m, rfl⟩ : ∃ k, m = k + 1 := ⟨m - 1, by omega⟩
  have hrank : t.rank ≤ 15 := by cases t <;> simp [Tier.rank]
  have hlength : (r ++ rest).length = r.length + rest.length := List.length_append
  rw [tierRest]
  refine (bind_eq (acceptWhere_eq_some ((takes_eq t op.kind).2 hop))).trans ?_
  exact (bind_eq (operand hright hrest (by omega))).trans (hloop m (by omega))

theorem choiceNone (h : Yields (.chain .disjunction) w e) : Yields .choice w e := by
  intro rest n hrest hn
  obtain ⟨n, rfl⟩ : ∃ k, n = k + 1 := ⟨n - 1, by omega⟩
  have hquestion : ∀ t ∈ rest.head?, t.kind ≠ .question := fun t ht hk =>
    hrest t ht (by rw [hk]; decide)
  have hchain : Stops (.chain .disjunction) rest := hrest.mono (List.subset_cons_self _ _)
  rw [ternary]
  refine (bind_eq (tier h hchain (by simp only [Tier.rank]; omega))).trans ?_
  exact bind_eq (accept_eq_none hquestion)

theorem choice {mark colon : Token} {y m : List Token} {yes no : Expr Unit}
    (h : Yields (.chain .disjunction) w e) (hmark : mark.kind = .question)
    (hyes : Yields .choice y yes) (hcolon : colon.kind = .colon) (hno : Yields .choice m no) :
    Yields .choice (w ++ mark :: (y ++ colon :: m)) (.ternary e mark yes no) := by
  intro rest n hrest hn
  obtain ⟨n, rfl⟩ : ∃ k, n = k + 1 := ⟨n - 1, by omega⟩
  have htokens : w ++ mark :: (y ++ colon :: m) ++ rest =
      w ++ mark :: (y ++ colon :: (m ++ rest)) := by simp
  rw [htokens] at hn ⊢
  rw [ternary]
  have hstops : Stops (.chain .disjunction) (mark :: (y ++ colon :: (m ++ rest))) :=
    stops_of_kind hmark (by decide)
  refine (bind_eq (tier h hstops (by simp only [Tier.rank]; omega))).trans ?_
  simp only [List.length_append, List.length_cons] at hn
  refine (bind_eq (accept_eq_some hmark)).trans ?_
  have hy : 32 * (y ++ colon :: (m ++ rest)).length + 16 ≤ n := by
    simp only [List.length_append, List.length_cons]
    omega
  have hm : 32 * (m ++ rest).length + 16 ≤ n := by
    simp only [List.length_append]
    omega
  refine (bind_eq (hyes _ n (stops_of_kind hcolon (by decide)) hy)).trans ?_
  refine (bind_eq (expect_eq hcolon)).trans ?_
  exact bind_eq (hno rest n hrest hm)

theorem assignNone (h : Yields .choice w e) : Yields .assignment w e := by
  intro rest n hrest hn
  obtain ⟨n, rfl⟩ : ∃ k, n = k + 1 := ⟨n - 1, by omega⟩
  have hassign : ∀ t ∈ rest.head?, t.kind ≠ .assign := fun t ht hk =>
    hrest t ht (by rw [hk]; decide)
  rw [Parser.assignment]
  refine (bind_eq (h rest n (hrest.mono (List.subset_cons_self _ _)) (by omega))).trans ?_
  exact bind_eq (accept_eq_none hassign)

/-- A call is read as a choice: nothing stands before it on the way. -/
theorem choice_of_call (h : Yields .call w e) (hw : StartsWith atomStarts w) :
    Yields .choice w e :=
  have hproduct : Yields (.chain .product) w e := chainNone (t := .product) (signNone h hw)
  have hsum : Yields (.chain .sum) w e := chainNone (t := .sum) hproduct
  have hcomparison : Yields (.chain .comparison) w e := chainNone (t := .comparison) hsum
  have hequality : Yields (.chain .equality) w e := chainNone (t := .equality) hcomparison
  have hconjunction : Yields (.chain .conjunction) w e := chainNone (t := .conjunction) hequality
  choiceNone (chainNone (t := .disjunction) hconjunction)

/-- **An assignment** to what is read as an expression first. -/
theorem assignTo {equals : Token} {v : List Token} {value e' : Expr Unit}
    (h : Yields .choice w e) (hequals : equals.kind = .assign) (hvalue : Yields .assignment v value)
    (htarget : Parser.assignTo e value = some e') :
    Yields .assignment (w ++ equals :: v) e' := by
  intro rest n hrest hn
  obtain ⟨n, rfl⟩ : ∃ k, n = k + 1 := ⟨n - 1, by omega⟩
  have htokens : w ++ equals :: v ++ rest = w ++ equals :: (v ++ rest) := by simp
  rw [htokens] at hn ⊢
  rw [Parser.assignment]
  refine (bind_eq (h _ n (stops_of_kind hequals (by decide)) (by omega))).trans ?_
  refine (bind_eq (accept_eq_some hequals)).trans ?_
  simp only [List.length_append, List.length_cons] at hn
  have hv : 32 * (v ++ rest).length + 17 ≤ n := by
    simp only [List.length_append]
    omega
  refine (bind_eq (hvalue rest n hrest hv)).trans ?_
  simp only [htarget]
  rfl

end Yields

/-- Arguments start with an expression. -/
theorem startsWith_of_arguments {w : List Token} {es : List (Expr Unit)} :
    Arguments w es → StartsWith (starts .assignment) w
  | .one h => startsWith_of_expression h
  | .more h _ _ => (startsWith_of_expression h).append

/-- A token that stands for a value is an atom. -/
theorem atomOf_constant {t : Token} {value : Literal} (h : Constant t value) :
    atomOf t = some (.literal t value) := by
  cases h with
  | falsity h | truth h | nothing h | number h | string h => simp only [atomOf, literalOf, h]

theorem atomOf_name {t : Token} (h : t.kind = .identifier) : atomOf t = some (.var t ()) := by
  simp only [atomOf, literalOf, h]

mutual

/-- **What is derived as an expression is read as it.** -/
theorem yields_of_expression {level : Level} {w : List Token} {e : Expr Unit} :
    Expression level w e → Yields level w e
  | .assign hname hequals hvalue =>
    have htarget := (Yields.atom (atomOf_name hname)).callNone
    (htarget.choice_of_call ⟨_, [], rfl, by rw [hname]; decide⟩).assignTo hequals
      (yields_of_expression hvalue) rfl
  | .assignField hobject hdot hname hequals hvalue => by
    have hstart := startsWith_of_expression hobject
    have htarget := (yields_of_expression hobject).property hdot hname
    have hread := (htarget.choice_of_call hstart.append).assignTo hequals
      (yields_of_expression hvalue) rfl
    rwa [List.append_assoc] at hread
  | .assignNone h => (yields_of_expression h).assignNone
  | .choice hcond hmark hyes hcolon hno =>
    (yields_of_expression hcond).choice hmark (yields_of_expression hyes) hcolon
      (yields_of_expression hno)
  | .choiceNone h => (yields_of_expression h).choiceNone
  | .chain hleft hop hright => (yields_of_expression hleft).chain hop (yields_of_expression hright)
  | .chainNone h => (yields_of_expression h).chainNone
  | .sign hop h => (yields_of_expression h).sign hop
  | .signNone h => (yields_of_expression h).signNone (startsWith_of_expression h)
  | .invoke hcallee hopening hclosing => (yields_of_expression hcallee).invoke hopening hclosing
  | .invokeWith hcallee hopening hargs hcount hclosing =>
    (yields_of_expression hcallee).invokeWith hopening (startsWith_of_arguments hargs)
      (listed_of_arguments hargs) hcount hclosing
  | .property hobject hdot hname => (yields_of_expression hobject).property hdot hname
  | .callNone h => (yields_of_expression h).callNone
  | .constant h => .atom (atomOf_constant h)
  | .receiver h => .atom (by simp only [atomOf, literalOf, h])
  | .name h => .atom (atomOf_name h)
  | .grouping hopening h hclosing => .grouping hopening (yields_of_expression h) hclosing

/-- The same for arguments. -/
theorem listed_of_arguments {w : List Token} {es : List (Expr Unit)} :
    Arguments w es → Yields.Listed w es
  | .one h => .one (yields_of_expression h)
  | .more h hcomma hes => .more (yields_of_expression h) hcomma (listed_of_arguments hes)

end

end Parser

end TanLang
