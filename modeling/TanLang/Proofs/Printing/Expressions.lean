import TanLang.Program.Printer
import TanLang.Proofs.Marks
import TanLang.Proofs.Source.Lexemes
/-!
# Printing — expressions can be read back

A printed expression is a form: its head is the operator, or a word or mark
that no operator is spelled as, and its parts are what the node has. Where
the nodes keep the tokens that a source has, the form tells the tree again,
all but the lines of its tokens and the spelling of its literals. So **two
expressions are printed alike only if they are the same but for that**, as
long as no two of the numbers in them are.
-/

namespace TanLang

open Text (put)
open Token (mark)
open Decimal (Numeral)

variable {α : Type}

/-! ## Without lines and spellings -/

namespace Expr

mutual

/-- **An expression without lines and spellings of literals**: what is left
of a literal is its value. Its token goes whole, since the `true` of a loop
that has no condition stands at the keyword of the loop. -/
def gist : Expr α → Expr α
  | literal _ value => .literal default value
  | grouping paren inner => .grouping (paren.reline anyLine) (gist inner)
  | unary op operand => .unary (op.reline anyLine) (gist operand)
  | binary left op right => .binary (gist left) (op.reline anyLine) (gist right)
  | ternary cond mark yes no => .ternary (gist cond) (mark.reline anyLine) (gist yes) (gist no)
  | logical left op right => .logical (gist left) (op.reline anyLine) (gist right)
  | var name address => .var (name.reline anyLine) address
  | assign name address value => .assign (name.reline anyLine) address (gist value)
  | call callee paren args => .call (gist callee) (paren.reline anyLine) (gistAll args)
  | get object name => .get (gist object) (name.reline anyLine)
  | set object name value => .set (gist object) (name.reline anyLine) (gist value)
  | receiver keyword address => .receiver (keyword.reline anyLine) address

/-- The same for expressions in a row. -/
def gistAll : List (Expr α) → List (Expr α)
  | [] => []
  | e :: rest => gist e :: gistAll rest

end

mutual

/-- The values of the literals in an expression. -/
def literals : Expr α → List Literal
  | literal _ value => [value]
  | grouping _ inner => literals inner
  | unary _ operand => literals operand
  | binary left _ right => literals left ++ literals right
  | ternary cond _ yes no => literals cond ++ (literals yes ++ literals no)
  | logical left _ right => literals left ++ literals right
  | var _ _ => []
  | assign _ _ value => literals value
  | call callee _ args => literals callee ++ literalsAll args
  | get object _ => literals object
  | set object _ value => literals object ++ literals value
  | receiver _ _ => []

/-- The same for expressions in a row. -/
def literalsAll : List (Expr α) → List Literal
  | [] => []
  | e :: rest => literals e ++ literalsAll rest

end

mutual

/-- **What is printed depends on nothing else.** -/
theorem write_gist : ∀ (e : Expr α) (rest : Text), e.gist.write rest = e.write rest
  | literal _ _, _ => rfl
  | grouping _ inner, rest => by simp only [gist, write, write_gist inner]
  | unary _ operand, rest => by simp only [gist, write, Token.reline_lexeme, write_gist operand]
  | binary left _ right, rest => by
    simp only [gist, write, Token.reline_lexeme, write_gist left, write_gist right]
  | ternary cond _ yes no, rest => by
    simp only [gist, write, write_gist cond, write_gist yes, write_gist no]
  | logical left _ right, rest => by
    simp only [gist, write, Token.reline_lexeme, write_gist left, write_gist right]
  | var _ _, _ => rfl
  | assign _ _ value, rest => by simp only [gist, write, Token.reline_lexeme, write_gist value]
  | call callee _ args, rest => by
    simp only [gist, write, write_gist callee, writeArgs_gistAll args]
  | get object _, rest => by simp only [gist, write, Token.reline_lexeme, write_gist object]
  | set object _ value, rest => by
    simp only [gist, write, Token.reline_lexeme, write_gist object, write_gist value]
  | receiver _ _, _ => rfl

theorem writeArgs_gistAll : ∀ (es : List (Expr α)) (rest : Text),
    writeArgs (gistAll es) rest = writeArgs es rest
  | [], _ => rfl
  | e :: more, rest => by
    simp only [gistAll, writeArgs, write_gist e, writeArgs_gistAll more]

end

/-! ## Forms of expressions -/

mutual

/-- **The form that an expression is printed as.** -/
def form : Expr α → Form
  | literal _ value => .leaf value.text
  | grouping _ inner => .list "group" [form inner]
  | unary op operand => .list op.lexeme [form operand]
  | binary left op right => .list op.lexeme [form left, form right]
  | ternary cond _ yes no => .list "?:" [form cond, form yes, form no]
  | logical left op right => .list op.lexeme [form left, form right]
  | var name _ => .leaf name.lexeme
  | assign name _ value => .list "=" [.leaf name.lexeme, form value]
  | call callee _ args => .list "call" (form callee :: formAll args)
  | get object name => .list "." [form object, .leaf name.lexeme]
  | set object name value => .list ".=" [form object, .leaf name.lexeme, form value]
  | receiver _ _ => .leaf "this"

/-- The same for expressions in a row. -/
def formAll : List (Expr α) → List Form
  | [] => []
  | e :: rest => form e :: formAll rest

end

mutual

theorem write_form : ∀ (e : Expr α) (rest : Text), e.form.write rest = e.write rest
  | literal _ _, _ => rfl
  | grouping _ inner, rest => by
    simp only [form, Form.write, Form.writeAll, write_form inner]
    rfl
  | unary _ operand, rest => by
    simp only [form, Form.write, Form.writeAll, write_form operand]
    rfl
  | binary left _ right, rest => by
    simp only [form, Form.write, Form.writeAll, write_form left, write_form right]
    rfl
  | ternary cond _ yes no, rest => by
    simp only [form, Form.write, Form.writeAll, write_form cond, write_form yes, write_form no]
    rfl
  | logical left _ right, rest => by
    simp only [form, Form.write, Form.writeAll, write_form left, write_form right]
    rfl
  | var _ _, _ => rfl
  | assign _ _ value, rest => by
    simp only [form, Form.write, Form.writeAll, write_form value]
    rfl
  | call callee _ args, rest => by
    simp only [form, Form.write, Form.writeAll, write_form callee, writeAll_formAll args]
    rfl
  | get object _, rest => by
    simp only [form, Form.write, Form.writeAll, write_form object]
    rfl
  | set object _ value, rest => by
    simp only [form, Form.write, Form.writeAll, write_form object, write_form value]
    rfl
  | receiver _ _, _ => rfl

theorem writeAll_formAll : ∀ (es : List (Expr α)) (rest : Text),
    Form.writeAll (formAll es) rest = writeArgs es rest
  | [], _ => rfl
  | e :: more, rest => by
    simp only [formAll, Form.writeAll, write_form e, writeAll_formAll more]
    rfl

end

end Expr

/-! ## Trees that keep the tokens of a source -/

/-- A token of a source, of one of some kinds. -/
def Token.OneOf (kinds : List Token.Kind) (t : Token) : Prop := t.Scanned ∧ t.kind ∈ kinds

/-- A value that a literal of a source can have. -/
def Literal.Kept : Literal → Prop
  | number x => x.isNaN = false
  | _ => True

namespace Expr

mutual

/-- **Every node keeps a token of a kind that it is read from**, and every
literal a value that it can have. -/
def Kept : Expr α → Prop
  | literal _ value => value.Kept
  | grouping paren inner => paren.OneOf [.leftParen] ∧ Kept inner
  | unary op operand => op.OneOf Mark.signs ∧ Kept operand
  | binary left op right => op.OneOf Mark.operators ∧ Kept left ∧ Kept right
  | ternary cond mark yes no => mark.OneOf [.question] ∧ Kept cond ∧ Kept yes ∧ Kept no
  | logical left op right => op.OneOf [.andWord, .orWord] ∧ Kept left ∧ Kept right
  | var name _ => name.OneOf [.identifier]
  | assign name _ value => name.OneOf [.identifier] ∧ Kept value
  | call callee paren args => paren.OneOf [.rightParen] ∧ Kept callee ∧ KeptAll args
  | get object name => name.OneOf [.identifier] ∧ Kept object
  | set object name value => name.OneOf [.identifier] ∧ Kept object ∧ Kept value
  | receiver keyword _ => keyword.OneOf [.thisWord]

/-- The same for expressions in a row. -/
def KeptAll : List (Expr α) → Prop
  | [] => True
  | e :: rest => Kept e ∧ KeptAll rest

end

end Expr

/-! ## Tokens of one spelling -/

namespace Token

variable {t : Token} {kinds : List Kind}

/-- Where it is known of what kind a token is, and that has one spelling,
nothing but its line is open. -/
theorem Scanned.reline_eq (ht : t.Scanned) (hkind : t.kind.spelling?.isSome = true) :
    t.reline anyLine = mark t.kind := by
  obtain ⟨spelling, hspelling⟩ := Option.isSome_iff_exists.1 hkind
  have hliteral : t.literal = .nil := by
    refine ht.plain ?_ ?_
    · intro h
      rw [h] at hkind
      exact absurd hkind (by decide)
    · intro h
      rw [h] at hkind
      exact absurd hkind (by decide)
  unfold reline mark anyLine
  rw [hspelling, Option.getD_some, ← ht.regular spelling hspelling, ← hliteral]

/-- The kinds of operators. -/
def operatorKinds : List Kind := Mark.signs ++ (Mark.operators ++ [.andWord, .orWord])

theorem OneOf.reline_eq (ht : t.OneOf kinds) (hkinds : ∀ k ∈ kinds, k.spelling?.isSome = true) :
    t.reline anyLine = mark t.kind :=
  ht.1.reline_eq (hkinds _ ht.2)

theorem OneOf.lexeme_eq (ht : t.OneOf kinds) (hkinds : ∀ k ∈ kinds, k.spelling?.isSome = true) :
    t.lexeme = (mark t.kind).lexeme := by
  rw [← ht.reline_eq hkinds, reline_lexeme]

/-- An identifier, apart from its line. -/
theorem OneOf.reline_identifier (ht : t.OneOf [.identifier]) :
    t.reline anyLine = ⟨.identifier, t.lexeme, .nil, 0⟩ := by
  have hkind : t.kind = .identifier := List.mem_singleton.1 ht.2
  have hliteral : t.literal = .nil := by
    refine ht.1.plain ?_ ?_
    · rw [hkind]
      nofun
    · rw [hkind]
      nofun
  unfold reline anyLine
  rw [hkind, hliteral]

theorem OneOf.name (ht : t.OneOf [.identifier]) : Name t.lexeme :=
  ht.1.name (List.mem_singleton.1 ht.2)

end Token

/-! ## Forms are sound -/

theorem leaf_of_numeral {w : Text} (hw : Numeral w) : Leaf w := by
  obtain ⟨b, rest, rfl, hb⟩ := hw.head
  have hfirst : b ≠ 34 ∧ b ≠ 40 := by
    constructor
    · rintro rfl
      revert hb
      decide
    · rintro rfl
      revert hb
      decide
  exact .word hfirst.1 hfirst.2 hw.unbroken

theorem numeral_ne_quote {w : Text} (hw : Numeral w) (t : Text) : w ≠ Text.quote t := by
  rintro rfl
  obtain ⟨b, rest, heq, hb⟩ := hw.head
  obtain ⟨rfl, -⟩ := List.cons.inj heq
  revert hb
  decide

namespace Literal

variable {u v : Literal}

theorem worded_nil : Worded nil.text := worded_of_keyword (s := "nil") (k := .nilWord) (by decide)

theorem worded_bool (b : Bool) : Worded (bool b).text := by
  cases b with
  | true => exact worded_of_keyword (s := "true") (k := .trueWord) (by decide)
  | false => exact worded_of_keyword (s := "false") (k := .falseWord) (by decide)

/-- What is printed for a literal is a leaf, -/
theorem Kept.leaf (hv : v.Kept) : Leaf v.text := by
  cases v with
  | nil => exact worded_nil.leaf
  | bool b => exact (worded_bool b).leaf
  | number x => exact leaf_of_numeral (Decimal.numeral_write hv)
  | string s => exact Text.leaf_quote s

/-- not the word `this`, -/
theorem Kept.ne_this (hv : v.Kept) : v.text ≠ Text.ofString "this" := by
  have hthis : Worded (Text.ofString "this") :=
    worded_of_keyword (s := "this") (k := .thisWord) (by decide)
  cases v with
  | nil => decide
  | bool b => cases b <;> decide
  | number x => exact hthis.ne_numeral (Decimal.numeral_write hv)
  | string s => exact hthis.ne_quote s

/-- and no name. -/
theorem Kept.ne_name (hv : v.Kept) {w : Text} (hw : Name w) : v.text ≠ w := by
  cases v with
  | nil => exact hw.ne_reserved (s := "nil") (k := .nilWord) (by decide)
  | bool b =>
    cases b with
    | true => exact hw.ne_reserved (s := "true") (k := .trueWord) (by decide)
    | false => exact hw.ne_reserved (s := "false") (k := .falseWord) (by decide)
  | number x => exact hw.ne_numeral (Decimal.numeral_write hv)
  | string s => exact hw.ne_quote s

/-- **Literals are printed alike only if they have the same value**, as long
as that is so for numbers. -/
theorem Kept.text_inj (hu : u.Kept) (hv : v.Kept)
    (hnumbers : ∀ x y, u = .number x → v = .number y → u.text = v.text → x = y)
    (h : u.text = v.text) : u = v := by
  cases u with
  | nil =>
    cases v with
    | nil => rfl
    | bool b => cases b <;> exact absurd h (by decide)
    | number y => exact absurd h.symm (worded_nil.ne_numeral (Decimal.numeral_write hv))
    | string t => exact absurd h.symm (worded_nil.ne_quote t)
  | bool b =>
    cases v with
    | nil => cases b <;> exact absurd h (by decide)
    | bool c => cases b <;> cases c <;> first | rfl | exact absurd h (by decide)
    | number y => exact absurd h.symm ((worded_bool b).ne_numeral (Decimal.numeral_write hv))
    | string t => exact absurd h.symm ((worded_bool b).ne_quote t)
  | number x =>
    have hx := Decimal.numeral_write hu
    cases v with
    | nil => exact absurd h (worded_nil.ne_numeral hx)
    | bool c => exact absurd h ((worded_bool c).ne_numeral hx)
    | number y => rw [hnumbers x y rfl rfl h]
    | string t => exact absurd h (numeral_ne_quote hx t)
  | string s =>
    cases v with
    | nil => exact absurd h (worded_nil.ne_quote s)
    | bool c => exact absurd h ((worded_bool c).ne_quote s)
    | number y => exact absurd h.symm (numeral_ne_quote (Decimal.numeral_write hv) s)
    | string t => rw [Text.quote_inj h]

end Literal

namespace Expr

theorem unbroken_operator {t : Token} {kinds : List Token.Kind} (ht : t.OneOf kinds)
    (hkinds : kinds ⊆ Token.operatorKinds) : Unbroken t.lexeme := by
  have hall : ∀ k ∈ Token.operatorKinds, k.spelling?.isSome = true ∧ Unbroken (mark k).lexeme := by
    decide
  rw [ht.lexeme_eq fun k hk => (hall k (hkinds hk)).1]
  exact (hall _ (hkinds ht.2)).2

mutual

/-- **The form of an expression is one that can be told from its text.** -/
theorem Kept.sound : ∀ {e : Expr α}, e.Kept → e.form.Sound
  | literal _ _, h => Literal.Kept.leaf h
  | grouping _ _, h => ⟨by decide, h.2.sound, trivial⟩
  | unary _ _, h => ⟨unbroken_operator h.1 (by decide), h.2.sound, trivial⟩
  | binary _ _ _, h => ⟨unbroken_operator h.1 (by decide), h.2.1.sound, h.2.2.sound, trivial⟩
  | ternary _ _ _ _, h => ⟨by decide, h.2.1.sound, h.2.2.1.sound, h.2.2.2.sound, trivial⟩
  | logical _ _ _, h => ⟨unbroken_operator h.1 (by decide), h.2.1.sound, h.2.2.sound, trivial⟩
  | var _ _, h => h.name.leaf
  | assign _ _ _, h => ⟨by decide, h.1.name.leaf, h.2.sound, trivial⟩
  | call _ _ _, h => ⟨by decide, h.2.1.sound, KeptAll.sound h.2.2⟩
  | get _ _, h => ⟨by decide, h.2.sound, h.1.name.leaf, trivial⟩
  | set _ _ _, h => ⟨by decide, h.2.1.sound, h.1.name.leaf, h.2.2.sound, trivial⟩
  | receiver _ _, _ => .word (by decide) (by decide) (by decide)

theorem KeptAll.sound : ∀ {es : List (Expr α)}, KeptAll es → Form.SoundAll (formAll es)
  | [], _ => trivial
  | _ :: _, h => ⟨h.1.sound, KeptAll.sound h.2⟩

end

end Expr

/-! ## Reading back -/

namespace Form

/-- What the head of a list says about it. -/
inductive Head where
  | grouping | choice | assign | call | get | set | operator
  deriving DecidableEq

/-- The heads that no operator is spelled as. -/
def heads : List (String × Head) :=
  [("group", .grouping), ("?:", .choice), ("=", .assign), ("call", .call), (".", .get),
    (".=", .set)]

/-- What a head is. -/
def headOf (head : Text) : Head :=
  match heads.find? fun h => Text.ofString h.1 == head with
  | some h => h.2
  | none => .operator

/-- The operator that is spelled in a way. -/
def operatorOf (head : Text) : Token :=
  mark ((Token.operatorKinds.find? fun k => (mark k).lexeme == head).getD .illegal)

/-- **The expression that a list stands for**, its parts read already. -/
def build (head : Text) (parts : List (Expr Unit)) : Expr Unit :=
  match headOf head, parts with
  | .grouping, [inner] => .grouping (mark .leftParen) inner
  | .choice, [cond, yes, no] => .ternary cond (mark .question) yes no
  | .assign, [.var name _, value] => .assign name () value
  | .call, callee :: args => .call callee (mark .rightParen) args
  | .get, [object, .var name _] => .get object name
  | .set, [object, .var name _, value] => .set object name value
  | .operator, [operand] => .unary (operatorOf head) operand
  | .operator, [left, right] =>
    if (operatorOf head).kind ∈ [.andWord, .orWord] then .logical left (operatorOf head) right
    else .binary left (operatorOf head) right
  | _, _ => default

/-- The expression that a leaf stands for: `this`, a literal if there is one
printed so, and else a variable. -/
def readLeaf (values : Text → Option Literal) (w : Text) : Expr Unit :=
  if w = "this" then .receiver (mark .thisWord) ()
  else
    match values w with
    | some v => .literal default v
    | none => .var ⟨.identifier, w, .nil, 0⟩ ()

mutual

/-- **The expression that a form stands for**, given which literals are
printed how. -/
def read (values : Text → Option Literal) : Form → Expr Unit
  | leaf w => readLeaf values w
  | list head parts => build head (readAll values parts)

/-- The same for forms in a row. -/
def readAll (values : Text → Option Literal) : List Form → List (Expr Unit)
  | [] => []
  | f :: more => read values f :: readAll values more

end

/-- Which literals are printed how, if those in a list are. -/
structure Tells (values : Text → Option Literal) (vs : List Literal) : Prop where
  literal : ∀ v ∈ vs, values v.text = some v
  name : ∀ w, Name w → values w = none

theorem Tells.mono {values : Text → Option Literal} {vs us : List Literal} (h : Tells values vs)
    (hsub : us ⊆ vs) : Tells values us :=
  ⟨fun v hv => h.literal v (hsub hv), h.name⟩

theorem readLeaf_name {values : Text → Option Literal} {vs : List Literal}
    (hvalues : Tells values vs) {name : Token} (hname : name.OneOf [.identifier]) :
    readLeaf values name.lexeme = .var (name.reline anyLine) () := by
  have hthis : name.lexeme ≠ Text.ofString "this" :=
    (hname.name.ne_reserved (s := "this") (k := .thisWord) (by decide)).symm
  rw [readLeaf, if_neg hthis, hvalues.name _ hname.name, hname.reline_identifier]

/-- An operator is the head of no other list, and its spelling tells it. -/
theorem headOf_operator {op : Token} {kinds : List Token.Kind} (hop : op.OneOf kinds)
    (hkinds : kinds ⊆ Token.operatorKinds) :
    headOf op.lexeme = .operator ∧ operatorOf op.lexeme = op.reline anyLine := by
  have hspelled : ∀ k ∈ Token.operatorKinds, k.spelling?.isSome = true := by decide
  have htold : ∀ k ∈ Token.operatorKinds, headOf (mark k).lexeme = .operator ∧
      operatorOf (mark k).lexeme = mark k := by decide
  rw [hop.lexeme_eq fun k hk => hspelled k (hkinds hk),
    hop.reline_eq fun k hk => hspelled k (hkinds hk)]
  exact htold _ (hkinds hop.2)

theorem build_unary {op : Token} (hop : op.OneOf Mark.signs) (operand : Expr Unit) :
    build op.lexeme [operand] = .unary (op.reline anyLine) operand := by
  obtain ⟨hhead, htold⟩ := headOf_operator hop (by decide)
  simp only [build, hhead, htold]

theorem build_binary {op : Token} (hop : op.OneOf Mark.operators) (left right : Expr Unit) :
    build op.lexeme [left, right] = .binary left (op.reline anyLine) right := by
  obtain ⟨hhead, htold⟩ := headOf_operator hop (by decide)
  have hnot : ∀ k ∈ Mark.operators, k ∉ [Token.Kind.andWord, .orWord] := by decide
  simp only [build, hhead, htold]
  exact if_neg (hnot _ hop.2)

theorem build_logical {op : Token} (hop : op.OneOf [.andWord, .orWord]) (left right : Expr Unit) :
    build op.lexeme [left, right] = .logical left (op.reline anyLine) right := by
  obtain ⟨hhead, htold⟩ := headOf_operator hop (by decide)
  simp only [build, hhead, htold]
  exact if_pos hop.2

end Form

namespace Expr

open Form (readLeaf build Tells)

variable {values : Text → Option Literal}

/-- A token of one kind, apart from its line. -/
theorem reline_of_oneOf {t : Token} {k : Token.Kind} (ht : t.OneOf [k])
    (hk : k.spelling?.isSome = true) : t.reline anyLine = mark k := by
  rw [ht.reline_eq (by simpa using hk), List.mem_singleton.1 ht.2]

mutual

/-- **The form of an expression is read back as the expression**, without
lines and spellings. -/
theorem Kept.read_form : ∀ {e : Expr Unit}, e.Kept → Tells values e.literals →
    e.form.read values = e.gist
  | literal _ value, h, hvalues => by
    have hthis : value.text ≠ Text.ofString "this" := Literal.Kept.ne_this h
    simp only [form, Form.read, readLeaf, if_neg hthis,
      hvalues.literal value (List.mem_singleton_self value), gist]
  | grouping _ _, h, hvalues => by
    simp only [form, Form.read, Form.readAll, h.2.read_form hvalues, gist,
      reline_of_oneOf h.1 rfl]
    rfl
  | unary _ _, h, hvalues => by
    simp only [form, Form.read, Form.readAll, h.2.read_form hvalues, gist, Form.build_unary h.1]
  | binary _ _ _, h, hvalues => by
    simp only [form, Form.read, Form.readAll, gist,
      h.2.1.read_form (hvalues.mono (List.subset_append_left _ _)),
      h.2.2.read_form (hvalues.mono (List.subset_append_right _ _)), Form.build_binary h.1]
  | ternary _ _ _ _, h, hvalues => by
    have hrest := hvalues.mono (List.subset_append_right _ _)
    simp only [form, Form.read, Form.readAll, gist,
      h.2.1.read_form (hvalues.mono (List.subset_append_left _ _)),
      h.2.2.1.read_form (hrest.mono (List.subset_append_left _ _)),
      h.2.2.2.read_form (hrest.mono (List.subset_append_right _ _)), reline_of_oneOf h.1 rfl]
    rfl
  | logical _ _ _, h, hvalues => by
    simp only [form, Form.read, Form.readAll, gist,
      h.2.1.read_form (hvalues.mono (List.subset_append_left _ _)),
      h.2.2.read_form (hvalues.mono (List.subset_append_right _ _)), Form.build_logical h.1]
  | var _ _, h, hvalues => Form.readLeaf_name hvalues h
  | assign _ _ _, h, hvalues => by
    simp only [form, Form.read, Form.readAll, h.2.read_form hvalues, gist,
      Form.readLeaf_name hvalues h.1]
    rfl
  | call _ _ _, h, hvalues => by
    simp only [form, Form.read, Form.readAll, gist,
      h.2.1.read_form (hvalues.mono (List.subset_append_left _ _)),
      KeptAll.readAll_formAll h.2.2 (hvalues.mono (List.subset_append_right _ _)),
      reline_of_oneOf h.1 rfl]
    rfl
  | get _ _, h, hvalues => by
    simp only [form, Form.read, Form.readAll, h.2.read_form hvalues, gist,
      Form.readLeaf_name hvalues h.1]
    rfl
  | set _ _ _, h, hvalues => by
    simp only [form, Form.read, Form.readAll, gist, Form.readLeaf_name hvalues h.1,
      h.2.1.read_form (hvalues.mono (List.subset_append_left _ _)),
      h.2.2.read_form (hvalues.mono (List.subset_append_right _ _))]
    rfl
  | receiver _ _, h, _ => by
    simp only [form, Form.read, gist, reline_of_oneOf h rfl]
    rfl

theorem KeptAll.readAll_formAll : ∀ {es : List (Expr Unit)}, KeptAll es →
    Tells values (literalsAll es) → Form.readAll values (formAll es) = gistAll es
  | [], _, _ => rfl
  | _ :: _, h, hvalues => by
    simp only [formAll, Form.readAll, gistAll,
      h.1.read_form (hvalues.mono (List.subset_append_left _ _)),
      KeptAll.readAll_formAll h.2 (hvalues.mono (List.subset_append_right _ _))]

end

/-! ## One text, one tree -/

mutual

theorem Kept.literals : ∀ {e : Expr α}, e.Kept → ∀ v ∈ e.literals, v.Kept
  | literal _ _, h, v, hv => by
    rw [List.mem_singleton.1 hv]
    exact h
  | grouping _ _, h, v, hv => h.2.literals v hv
  | unary _ _, h, v, hv => h.2.literals v hv
  | binary _ _ _, h, v, hv =>
    (List.mem_append.1 hv).elim (h.2.1.literals v) (h.2.2.literals v)
  | ternary _ _ _ _, h, v, hv => (List.mem_append.1 hv).elim (h.2.1.literals v) fun hv =>
    (List.mem_append.1 hv).elim (h.2.2.1.literals v) (h.2.2.2.literals v)
  | logical _ _ _, h, v, hv =>
    (List.mem_append.1 hv).elim (h.2.1.literals v) (h.2.2.literals v)
  | var _ _, _, _, hv => nomatch hv
  | assign _ _ _, h, v, hv => h.2.literals v hv
  | call _ _ _, h, v, hv =>
    (List.mem_append.1 hv).elim (h.2.1.literals v) (KeptAll.literals h.2.2 v)
  | get _ _, h, v, hv => h.2.literals v hv
  | set _ _ _, h, v, hv =>
    (List.mem_append.1 hv).elim (h.2.1.literals v) (h.2.2.literals v)
  | receiver _ _, _, _, hv => nomatch hv

theorem KeptAll.literals : ∀ {es : List (Expr α)}, KeptAll es → ∀ v ∈ literalsAll es, v.Kept
  | [], _, _, hv => nomatch hv
  | _ :: _, h, v, hv => (List.mem_append.1 hv).elim (h.1.literals v) (KeptAll.literals h.2 v)

end

/-- **Printing tells numbers apart** where they are among these literals. -/
def NumbersTold (vs : List Literal) : Prop :=
  ∀ x y, .number x ∈ vs → .number y ∈ vs →
    Decimal.write Decimal.positional x = Decimal.write Decimal.positional y → x = y

/-- Then each literal is the first one that is printed as it is. -/
theorem tells_find? {vs : List Literal} (hkept : ∀ v ∈ vs, v.Kept) (hnumbers : NumbersTold vs) :
    Tells (fun w => vs.find? fun v => v.text == w) vs where
  literal v hv := by
    cases hfind : vs.find? fun u => u.text == v.text with
    | none =>
      have hnot := List.find?_eq_none.1 hfind v hv
      exact absurd (beq_self_eq_true v.text) hnot
    | some u =>
      have hu := List.mem_of_find?_eq_some hfind
      have htext : u.text = v.text := by simpa using List.find?_some hfind
      rw [(hkept u hu).text_inj (hkept v hv) ?_ htext]
      rintro x y rfl rfl hxy
      exact hnumbers x y hu hv hxy
  name w hw := by
    refine List.find?_eq_none.2 fun v hv heq => ?_
    exact (hkept v hv).ne_name hw (by simpa using heq)

/-- **Two expressions are printed alike exactly if they are the same but for
lines and the spelling of literals.** -/
theorem Kept.text_eq_iff {e e' : Expr Unit} (he : e.Kept) (he' : e'.Kept)
    (hnumbers : NumbersTold (e.literals ++ e'.literals)) :
    e.text = e'.text ↔ e.gist = e'.gist := by
  constructor
  · intro htext
    have htells := tells_find? (fun v hv => (List.mem_append.1 hv).elim (he.literals v)
      (he'.literals v)) hnumbers
    -- the two have one form, and it is read back as both of them
    have hform : e.form = e'.form := by
      refine (Form.write_inj he.sound he'.sound delimited_nil delimited_nil ?_).1
      rw [write_form, write_form]
      exact htext
    rw [← he.read_form (htells.mono (List.subset_append_left _ _)), hform,
      he'.read_form (htells.mono (List.subset_append_right _ _))]
  · intro hgist
    rw [text, text, ← write_gist e, hgist, write_gist]

end Expr

end TanLang
