import TanLang.Proofs.Evaluation.Cutting
import TanLang.Proofs.Evaluation.Preservation
import TanLang.Proofs.Heap.WritingOut
/-!
# Evaluation — two runs that come to the same

Of two runs that do the same, one may take more of the bound on the
recursion than the other, so they cannot be compared bound by bound. They
meet instead: **if either of them has ended within a bound, both come to an
outcome that no higher bound changes**, and the outcomes match.

Two outcomes match if they give the same answer or raise the same error, and
if the machines they leave differ by extra scopes only.
-/

namespace TanLang

open Heap (Matches Paired Widens)

namespace Eval

variable {α β : Type} {σ : Pairing} {layers : Layers} {m m' : Machine} {n : Nat}

/-! ## Machines -/

/-- Two machines that differ by extra scopes and by the `for` loops in their
code. -/
structure Beside (σ : Pairing) (m m' : Machine) : Prop where
  heap : Matches σ m.heap m'.heap
  depth : m'.depth = m.depth
  printed : m'.printed = m.printed

/-- Two machines were brought to others, and the same scopes are active. -/
structure Brought (σ : Pairing) (m m' : Machine) (σ₁ : Pairing) (k k' : Machine) : Prop where
  widens : Widens σ m.heap m'.heap σ₁ k.heap k'.heap
  beside : Beside σ₁ k k'
  left : k.active = m.active
  right : k'.active = m'.active

/-- **Two outcomes match.** -/
inductive Matched (σ : Pairing) (m m' : Machine) : Outcome α → Outcome α → Prop where
  | done {σ₁ : Pairing} {k k' : Machine} (a : α) (h : Brought σ m m' σ₁ k k') :
      Matched σ m m' (.done a k) (.done a k')
  | raised {σ₁ : Pairing} {k k' : Machine} (e : RuntimeError) (h : Brought σ m m' σ₁ k k') :
      Matched σ m m' (.raised e k) (.raised e k')
  | crashed {σ₁ : Pairing} {k k' : Machine} (h : Brought σ m m' σ₁ k k') :
      Matched σ m m' (.crashed k) (.crashed k')

theorem Brought.refl (h : Beside σ m m') : Brought σ m m' σ m m' := ⟨.refl _ _ _, h, rfl, rfl⟩

theorem Brought.trans {σ₁ σ₂ : Pairing} {k k' l l' : Machine} (h₁ : Brought σ m m' σ₁ k k')
    (h₂ : Brought σ₁ k k' σ₂ l l') : Brought σ m m' σ₂ l l' :=
  ⟨h₁.widens.trans h₂.widens, h₂.beside, h₂.left.trans h₁.left, h₂.right.trans h₁.right⟩

/-- The scopes around the active ones correspond as before. -/
theorem Brought.paired {σ₁ : Pairing} {k k' : Machine} (h : Brought σ m m' σ₁ k k')
    (hpaired : Paired σ m.heap m'.heap layers m.active m'.active) :
    Paired σ₁ k.heap k'.heap layers k.active k'.active := by
  rw [h.left, h.right]
  exact hpaired.widen h.widens

/-- Only the heaps have changed. -/
theorem Brought.of_heap {σ₁ : Pairing} {h h' : Heap} (hbeside : Beside σ m m')
    (hwidens : Widens σ m.heap m'.heap σ₁ h h') (hmatches : Matches σ₁ h h') :
    Brought σ m m' σ₁ { m with heap := h } { m' with heap := h' } :=
  ⟨hwidens, ⟨hmatches, hbeside.depth, hbeside.printed⟩, rfl, rfl⟩

namespace Matched

variable {o o' : Outcome α}

theorem after {σ₁ : Pairing} {k k' : Machine} (h₁ : Brought σ m m' σ₁ k k')
    (h : Matched σ₁ k k' o o') : Matched σ m m' o o' := by
  cases h with
  | done a h => exact .done a (h₁.trans h)
  | raised e h => exact .raised e (h₁.trans h)
  | crashed h => exact .crashed (h₁.trans h)

theorem ended (h : Matched σ m m' o o') : o.Ended ∧ o'.Ended := by
  cases h with
  | done a h => exact ⟨.done, .done⟩
  | raised e h => exact ⟨.raised, .raised⟩
  | crashed h => exact ⟨.crashed, .crashed⟩

theorem brought (h : Matched σ m m' o o') : ∃ σ₁, Brought σ m m' σ₁ o.machine o'.machine := by
  cases h with
  | done a h => exact ⟨_, h⟩
  | raised e h => exact ⟨_, h⟩
  | crashed h => exact ⟨_, h⟩

/-- Machines put back after an action. -/
theorem mapMachine {σ₀ : Pairing} {m₀ m₀' : Machine} {g g' : Machine → Machine}
    (h : Matched σ₀ m₀ m₀' o o')
    (hback : ∀ σ₁ k k', Brought σ₀ m₀ m₀' σ₁ k k' → Brought σ m m' σ₁ (g k) (g' k')) :
    Matched σ m m' (o.mapMachine g) (o'.mapMachine g') := by
  cases h with
  | done a h => exact .done a (hback _ _ _ h)
  | raised e h => exact .raised e (hback _ _ _ h)
  | crashed h => exact .crashed (hback _ _ _ h)

end Matched

/-! ## What a run comes to -/

/-- **A run comes to an outcome**, and did so already if it has ended within
the bound given. -/
structure ComesTo (x : Nat → Action α) (n : Nat) (m : Machine) (o : Outcome α) : Prop where
  already : (x n m).Ended → x n m = o
  settles : ∃ enough, ∀ k, enough ≤ k → x k m = o

theorem ended_of_bind {x : Action α} {f : α → Action β} (h : ((x >>= f) m).Ended) :
    (x m).Ended := by
  intro hx
  exact h (bind_of_halt hx).1

namespace ComesTo

variable {x : Nat → Action α} {f : Nat → α → Action β} {a : α} {k : Machine} {o : Outcome β}

theorem of_action (x : Action α) (n : Nat) (m : Machine) : ComesTo (fun _ => x) n m (x m) :=
  ⟨fun _ => rfl, 0, fun _ _ => rfl⟩

/-- **One run after another.** -/
theorem bind (hx : ComesTo x n m (.done a k)) (hf : ComesTo (fun i => f i a) n k o) :
    ComesTo (fun i => x i >>= f i) n m o where
  already hended := by
    have hdone := hx.already (ended_of_bind hended)
    rw [bind_of_done hdone] at hended ⊢
    exact hf.already hended
  settles := by
    obtain ⟨enough, hdone⟩ := hx.settles
    obtain ⟨enough', ho⟩ := hf.settles
    refine ⟨max enough enough', fun i hi => ?_⟩
    rw [bind_of_done (hdone i (by omega))]
    exact ho i (by omega)

/-- Nothing comes after a run that gives no answer. -/
theorem bind_of_halt {k : Outcome α} (hx : ComesTo x n m k)
    (hhalt : ∀ x : Action α, ∀ f : α → Action β, x m = k → (x >>= f) m = o) :
    ComesTo (fun i => x i >>= f i) n m o where
  already hended := hhalt _ _ (hx.already (ended_of_bind hended))
  settles := by
    obtain ⟨enough, hk⟩ := hx.settles
    exact ⟨enough, fun i hi => hhalt _ _ (hk i hi)⟩

theorem succ {o : Outcome α} (hx : ComesTo (fun i => x (i + 1)) n m o) :
    ComesTo x (n + 1) m o where
  already := hx.already
  settles := by
    obtain ⟨enough, ho⟩ := hx.settles
    refine ⟨enough + 1, fun i hi => ?_⟩
    obtain ⟨j, rfl⟩ := Nat.exists_eq_add_of_le hi
    rw [show enough + 1 + j = enough + j + 1 by omega]
    exact ho (enough + j) (by omega)

/-- A run that goes on as another does from some machine on. -/
theorem congr {y : Nat → Action α} {o : Outcome α} (hx : ComesTo x n k o)
    (hy : ∀ i, y i m = x i k) : ComesTo y n m o where
  already hended := by
    rw [hy] at hended ⊢
    exact hx.already hended
  settles := by
    obtain ⟨enough, ho⟩ := hx.settles
    exact ⟨enough, fun i hi => (hy i).trans (ho i hi)⟩

/-- A run with the machine set up before it and put back after it. -/
theorem around {y : Nat → Action α} {m₀ : Machine} {g : Machine → Machine} {o : Outcome α}
    (hx : ComesTo x n m₀ o) (hy : ∀ i, y i m = (x i m₀).mapMachine g) :
    ComesTo y n m (o.mapMachine g) where
  already hended := by
    rw [hy, Outcome.Ended, Outcome.halt?_mapMachine] at hended
    rw [hy, hx.already hended]
  settles := by
    obtain ⟨enough, ho⟩ := hx.settles
    exact ⟨enough, fun i hi => by rw [hy, ho i hi]⟩

end ComesTo

/-! ## Runs that meet -/

/-- **Two runs meet**: if either has ended within the bound, both come to an
outcome, and the outcomes match. -/
def Meet (σ : Pairing) (m m' : Machine) (n : Nat) (x y : Nat → Action α) : Prop :=
  (x n m).Ended ∨ (y n m').Ended →
    ∃ o o', Matched σ m m' o o' ∧ ComesTo x n m o ∧ ComesTo y n m' o'

/-- Two runs meet wherever the scopes around correspond. -/
def Meets (layers : Layers) (n : Nat) (x y : Nat → Action α) : Prop :=
  ∀ σ m m', Beside σ m m' → Paired σ m.heap m'.heap layers m.active m'.active →
    Meet σ m m' n x y

/-- Two actions do the same wherever the scopes around correspond. -/
def Pairs (layers : Layers) (x y : Action α) : Prop :=
  ∀ σ m m', Beside σ m m' → Paired σ m.heap m'.heap layers m.active m'.active →
    Matched σ m m' (x m) (y m')

namespace Meet

variable {x y : Nat → Action α} {f g : Nat → α → Action β}

theorem of_matched {x y : Action α} (h : Matched σ m m' (x m) (y m')) :
    Meet σ m m' n (fun _ => x) (fun _ => y) :=
  fun _ => ⟨_, _, h, .of_action x n m, .of_action y n m'⟩

/-- **One run after another.** What comes after an answer has to meet where
the runs that gave it have met. -/
theorem bind (hx : Meet σ m m' n x y)
    (hf : ∀ a σ₁ k k', Brought σ m m' σ₁ k k' → (∃ i, x i m = .done a k) →
      Meet σ₁ k k' n (fun i => f i a) (fun i => g i a)) :
    Meet σ m m' n (fun i => x i >>= f i) (fun i => y i >>= g i) := by
  intro hended
  obtain ⟨o, o', hmatched, hxo, hyo⟩ := hx (hended.imp ended_of_bind ended_of_bind)
  cases hmatched with
  | @done σ₁ k k' a hbrought =>
    have hnext : (f n a k).Ended ∨ (g n a k').Ended := by
      refine hended.imp (fun h : ((x n >>= f n) m).Ended => ?_)
        fun h : ((y n >>= g n) m').Ended => ?_
      · rwa [bind_of_done (hxo.already (ended_of_bind h))] at h
      · rwa [bind_of_done (hyo.already (ended_of_bind h))] at h
    obtain ⟨enough, hdone⟩ := hxo.settles
    obtain ⟨o, o', hmatched, hfo, hgo⟩ :=
      hf a σ₁ k k' hbrought ⟨enough, hdone enough (Nat.le_refl _)⟩ hnext
    exact ⟨o, o', hmatched.after hbrought, hxo.bind hfo, hyo.bind hgo⟩
  | @raised σ₁ k k' e hbrought =>
    refine ⟨_, _, .raised e hbrought, hxo.bind_of_halt fun x f hx => ?_,
      hyo.bind_of_halt fun x f hx => ?_⟩
    · change Action.andThen x f m = _
      rw [Action.andThen, hx]
    · change Action.andThen x f m' = _
      rw [Action.andThen, hx]
  | @crashed σ₁ k k' hbrought =>
    refine ⟨_, _, .crashed hbrought, hxo.bind_of_halt fun x f hx => ?_,
      hyo.bind_of_halt fun x f hx => ?_⟩
    · change Action.andThen x f m = _
      rw [Action.andThen, hx]
    · change Action.andThen x f m' = _
      rw [Action.andThen, hx]

/-- **Runs that go on as others do** from the machines they are brought to. -/
theorem after {x' y' : Nat → Action α} {σ₁ : Pairing} {k k' : Machine}
    (hbrought : Brought σ m m' σ₁ k k') (h : Meet σ₁ k k' n x y) (hx : ∀ i, x' i m = x i k)
    (hy : ∀ i, y' i m' = y i k') : Meet σ m m' n x' y' := by
  intro hended
  rw [hx, hy] at hended
  obtain ⟨o, o', hmatched, hxo, hyo⟩ := h hended
  exact ⟨o, o', hmatched.after hbrought, hxo.congr hx, hyo.congr hy⟩

/-- One more of the bound on both sides. -/
theorem succ (h : Meet σ m m' n (fun i => x (i + 1)) (fun i => y (i + 1))) :
    Meet σ m m' (n + 1) x y := by
  intro hended
  obtain ⟨o, o', hmatched, hx, hy⟩ := h hended
  exact ⟨o, o', hmatched, hx.succ, hy.succ⟩

/-- Machines set up before two runs and put back after them. -/
theorem around {x' y' : Nat → Action α} {σ₀ : Pairing} {m₀ m₀' : Machine}
    {b b' : Machine → Machine} (h : Meet σ₀ m₀ m₀' n x y)
    (hx : ∀ i, x' i m = (x i m₀).mapMachine b) (hy : ∀ i, y' i m' = (y i m₀').mapMachine b')
    (hback : ∀ σ₁ k k', Brought σ₀ m₀ m₀' σ₁ k k' → Brought σ m m' σ₁ (b k) (b' k')) :
    Meet σ m m' n x' y' := by
  intro hended
  rw [hx, hy, Outcome.Ended, Outcome.Ended, Outcome.halt?_mapMachine,
    Outcome.halt?_mapMachine] at hended
  obtain ⟨o, o', hmatched, hxo, hyo⟩ := h hended
  exact ⟨_, _, hmatched.mapMachine hback, hxo.around hx, hyo.around hy⟩

/-- Two runs in scopes of their own. -/
theorem inScope {s s' : ScopeId}
    (h : Meet σ { m with active := s } { m' with active := s' } n x y) :
    Meet σ m m' n (fun i => Action.inScope s (x i)) (fun i => Action.inScope s' (y i)) :=
  h.around (fun _ => rfl) (fun _ => rfl) fun _ _ _ hbrought =>
    ⟨hbrought.widens, ⟨hbrought.beside.heap, hbrought.beside.depth, hbrought.beside.printed⟩,
      rfl, rfl⟩

end Meet

namespace Meets

variable {x y : Nat → Action α} {f g : Nat → α → Action β}

theorem of_pairs {x y : Action α} (h : Pairs layers x y) :
    Meets layers n (fun _ => x) (fun _ => y) :=
  fun σ m m' hbeside hpaired => .of_matched (h σ m m' hbeside hpaired)

theorem pure (a : α) : Meets layers n (fun _ => Pure.pure a) (fun _ => Pure.pure a) :=
  of_pairs fun _ _ _ hbeside _ => .done a (.refl hbeside)

theorem raise (token : Token) (fault : Fault) :
    Meets layers n (fun _ => (Action.raise token fault : Action α))
      (fun _ => Action.raise token fault) :=
  of_pairs fun _ _ _ hbeside _ => .raised _ (.refl hbeside)

theorem liftFault (token : Token) (v : Except Fault α) :
    Meets layers n (fun _ => Action.liftFault token v) (fun _ => Action.liftFault token v) := by
  cases v with
  | ok a => exact pure a
  | error fault => exact raise token fault

/-- What is stopped at once has not ended. -/
theorem zero (hx : x 0 = Action.stop) (hy : y 0 = Action.stop) : Meets layers 0 x y := by
  intro σ m m' _ _ hended
  rw [hx, hy] at hended
  rcases hended with h | h
  · exact absurd rfl h
  · exact absurd rfl h

theorem succ (h : Meets layers n (fun i => x (i + 1)) (fun i => y (i + 1))) :
    Meets layers (n + 1) x y :=
  fun σ m m' hbeside hpaired => (h σ m m' hbeside hpaired).succ

theorem bind (hx : Meets layers n x y)
    (hf : ∀ a, Meets layers n (fun i => f i a) (fun i => g i a)) :
    Meets layers n (fun i => x i >>= f i) (fun i => y i >>= g i) := by
  intro σ m m' hbeside hpaired
  refine (hx σ m m' hbeside hpaired).bind fun a σ₁ k k' hbrought _ => ?_
  exact hf a σ₁ k k' hbrought.beside (hbrought.paired hpaired)

theorem counted (hx : Meets layers n x y) :
    Meets layers n (fun i => Action.counted (x i)) (fun i => Action.counted (y i)) := by
  intro σ m m' hbeside hpaired
  have hdeeper : Beside σ { m with depth := m.depth + 1 } { m' with depth := m'.depth + 1 } :=
    ⟨hbeside.heap, congrArg (· + 1) hbeside.depth, hbeside.printed⟩
  refine (hx σ _ _ hdeeper hpaired).around (fun _ => rfl) (fun _ => rfl)
    fun σ₁ k k' hbrought => ?_
  exact ⟨hbrought.widens, ⟨hbrought.beside.heap, congrArg (· - 1) hbrought.beside.depth,
    hbrought.beside.printed⟩, hbrought.left, hbrought.right⟩

/-- **Two runs in new scopes.** -/
theorem inNewScope (hx : Meets (false :: layers) n x y) :
    Meets layers n (fun i => Action.inNewScope (x i)) (fun i => Action.inNewScope (y i)) := by
  intro σ m m' hbeside hpaired
  obtain ⟨hwidens, hnew, hinside⟩ := hbeside.heap.newScope hpaired
  refine (hx _ { m with
      heap := (m.heap.newScope (some m.active)).1, active := (m.heap.newScope (some m.active)).2 }
    { m' with
      heap := (m'.heap.newScope (some m'.active)).1
      active := (m'.heap.newScope (some m'.active)).2 }
    ⟨hnew, hbeside.depth, hbeside.printed⟩ hinside).around (fun _ => rfl) (fun _ => rfl)
    fun σ₁ k k' hbrought => ?_
  exact ⟨hwidens.trans hbrought.widens, ⟨hbrought.beside.heap, hbrought.beside.depth,
    hbrought.beside.printed⟩, rfl, rfl⟩

/-- **A run, and one in an extra scope.** -/
theorem inExtraScope (hx : Meets (true :: layers) n x y) :
    Meets layers n x (fun i => Action.inNewScope (y i)) := by
  intro σ m m' hbeside hpaired
  obtain ⟨hwidens, hextra, hinside⟩ := hbeside.heap.extraScope hpaired
  refine (hx σ m { m' with
      heap := (m'.heap.newScope (some m'.active)).1
      active := (m'.heap.newScope (some m'.active)).2 }
    ⟨hextra, hbeside.depth, hbeside.printed⟩ hinside).around
    (b := id) (fun i => ?_) (fun _ => rfl) fun σ₁ k k' hbrought => ?_
  · cases x i m <;> rfl
  · exact ⟨hwidens.trans hbrought.widens, ⟨hbrought.beside.heap, hbrought.beside.depth,
      hbrought.beside.printed⟩, hbrought.left, rfl⟩

end Meets

/-! ## Runs that take more of the bound -/

/-- **A run that ends is the same within every higher bound.** -/
def Steady (x : Nat → Action α) : Prop := ∀ n k, n ≤ k → Curtails (· = .exhausted) (x n) (x k)

theorem Steady.bind {x : Nat → Action α} {f : Nat → α → Action β} (hx : Steady x)
    (hf : ∀ a, Steady fun i => f i a) : Steady fun i => x i >>= f i :=
  fun n k hle => (hx n k hle).bind fun a => hf a n k hle

theorem Steady.pure (a : α) : Steady fun _ => (Pure.pure a : Action α) :=
  fun _ _ _ => .pure a

/-- **A run is another one that takes more of the bound**: it comes to the
same, but within a higher bound. -/
structure Later (x' x : Nat → Action α) : Prop where
  earlier : ∀ n m, (x' n m).Ended → x n m = x' n m
  settles : ∀ n m, (x n m).Ended → ∃ enough, ∀ k, enough ≤ k → x' k m = x n m

namespace Later

variable {x x' x'' : Nat → Action α} {f f' : Nat → α → Action β}

theorem refl (hx : Steady x) : Later x x where
  earlier _ _ _ := rfl
  settles n _ hended := ⟨n, fun k hle => (hx n k hle).eq_of_ended hended⟩

theorem trans (h₁ : Later x'' x') (h₂ : Later x' x) : Later x'' x where
  earlier n m hended := by
    have hsame := h₁.earlier n m hended
    rw [← hsame] at hended ⊢
    exact h₂.earlier n m hended
  settles n m hended := by
    obtain ⟨enough, hsame⟩ := h₂.settles n m hended
    have hlater := hsame enough (Nat.le_refl _)
    rw [← hlater] at hended ⊢
    exact h₁.settles enough m hended

/-- A run that takes one more of the bound. -/
theorem succ (hx : Steady x) (hzero : x' 0 = Action.stop) (hsucc : ∀ k, x' (k + 1) = x k) :
    Later x' x where
  earlier n m hended := by
    cases n with
    | zero =>
      rw [hzero] at hended
      exact absurd rfl hended
    | succ k =>
      rw [hsucc] at hended ⊢
      exact (hx k (k + 1) (Nat.le_succ k)).eq_of_ended hended
  settles n m hended := by
    refine ⟨n + 1, fun k hle => ?_⟩
    obtain ⟨j, rfl⟩ := Nat.exists_eq_add_of_le hle
    rw [show n + 1 + j = n + j + 1 by omega, hsucc]
    exact (hx n (n + j) (Nat.le_add_right n j)).eq_of_ended hended

theorem bind (hx : Later x' x) (hf : ∀ a, Later (fun i => f' i a) (fun i => f i a)) :
    Later (fun i => x' i >>= f' i) (fun i => x i >>= f i) where
  earlier n m hended := by
    have hsame := hx.earlier n m (ended_of_bind hended)
    rcases (x' n m).done_or_halt with ⟨a, k, hdone⟩ | ⟨k, hhalt⟩
    · rw [bind_of_done hdone] at hended ⊢
      rw [bind_of_done (hsame.trans hdone)]
      exact (hf a).earlier n k hended
    · change Action.andThen (x n) (f n) m = Action.andThen (x' n) (f' n) m
      unfold Action.andThen
      rw [hsame]
      cases hx' : x' n m with
      | done a k =>
        rw [hx'] at hhalt
        cases hhalt
      | raised e k | crashed k | exhausted k => rfl
  settles n m hended := by
    obtain ⟨enough, hsame⟩ := hx.settles n m (ended_of_bind hended)
    rcases (x n m).done_or_halt with ⟨a, k, hdone⟩ | ⟨k, hhalt⟩
    · rw [bind_of_done hdone] at hended ⊢
      obtain ⟨enough', hsame'⟩ := (hf a).settles n k hended
      refine ⟨max enough enough', fun i hi => ?_⟩
      rw [bind_of_done ((hsame i (by omega)).trans hdone)]
      exact hsame' i (by omega)
    · refine ⟨enough, fun i hi => ?_⟩
      change Action.andThen (x' i) (f' i) m = Action.andThen (x n) (f n) m
      unfold Action.andThen
      rw [hsame i hi]
      cases hxn : x n m with
      | done a k =>
        rw [hxn] at hhalt
        cases hhalt
      | raised e k | crashed k | exhausted k => rfl

theorem inNewScope (hx : Later x' x) :
    Later (fun i => Action.inNewScope (x' i)) (fun i => Action.inNewScope (x i)) where
  earlier n m hended := by
    unfold Action.inNewScope Action.inScope at hended ⊢
    simp only [Outcome.Ended, Outcome.halt?_mapMachine] at hended ⊢
    rw [hx.earlier n _ hended]
  settles n m hended := by
    unfold Action.inNewScope Action.inScope at hended ⊢
    simp only [Outcome.Ended, Outcome.halt?_mapMachine] at hended
    obtain ⟨enough, hsame⟩ := hx.settles n _ hended
    exact ⟨enough, fun i hi => by simp only [hsame i hi]⟩

/-- A run that comes to an outcome comes to it later, too. -/
theorem comesTo (h : Later x' x) {o : Outcome α} (ho : o.Ended) (hx : ComesTo x n m o) :
    ComesTo x' n m o where
  already hended := by
    have hsame := h.earlier n m hended
    rw [← hsame] at hended ⊢
    exact hx.already hended
  settles := by
    obtain ⟨enough, hsame⟩ := hx.settles
    have hlast := hsame enough (Nat.le_refl _)
    obtain ⟨enough', hlater⟩ := h.settles enough m (by rw [hlast]; exact ho)
    exact ⟨enough', fun i hi => (hlater i hi).trans hlast⟩

end Later

/-- **Runs that meet still do if they take more of the bound.** -/
theorem Meets.later {x x' y y' : Nat → Action α} (h : Meets layers n x y) (hx : Later x' x)
    (hy : Later y' y) : Meets layers n x' y' := by
  intro σ m m' hbeside hpaired hended
  have hended' : (x n m).Ended ∨ (y n m').Ended := by
    refine hended.imp (fun h => ?_) fun h => ?_
    · rwa [hx.earlier n m h]
    · rwa [hy.earlier n m' h]
  obtain ⟨o, o', hmatched, hxo, hyo⟩ := h σ m m' hbeside hpaired hended'
  exact ⟨o, o', hmatched, hx.comesTo hmatched.ended.1 hxo, hy.comesTo hmatched.ended.2 hyo⟩

end Eval

end TanLang
