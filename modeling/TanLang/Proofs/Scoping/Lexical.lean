import TanLang.Proofs.Scoping.Lines
import TanLang.Proofs.Scoping.Sites
import Mathlib.Data.List.Forall2
/-!
# Scoping — resolution is lexical

Resolution walks over a program with a stack of scopes that it fills as it
goes. Its stack always says of each scope around the current place what the
sites so far have declared there (`Tracks`), since no scope is opened twice.
So **an address is a lexical distance** (`address_iff_distance`), and **the
issues are the scope violations, in order** (`issues_eq_violations`), in
every program, whether or not it has other issues.
-/

namespace TanLang

namespace Scoping

variable {α : Type}

/-! ## Where sites can be -/

/-- The site is directly in the setting, or in a scope that is opened at the
position or further inside. -/
def Site.Within (here : Setting) (p : Position) (site : Site α) : Prop :=
  site.setting.scopes.head? = here.scopes.head? ∨
    ∃ scope, site.setting.scopes.head? = some scope ∧ p <:+ scope.position

namespace Site.Within

variable {here : Setting} {p q : Position} {site : Site α}

theorem of_suffix (h : site.Within here q) (hq : p <:+ q) : site.Within here p := by
  rcases h with h | ⟨scope, hscope, hsuffix⟩
  · exact .inl h
  · exact .inr ⟨scope, hscope, hq.trans hsuffix⟩

/-- A scope opened at the position counts as inside. -/
theorem of_inside {opening : Opening} (h : site.Within (here.inside opening p) p) :
    site.Within here p := by
  rcases h with h | h
  · exact .inr ⟨⟨opening, p⟩, h, List.suffix_rfl⟩
  · exact .inr h

theorem of_mem_sites {making : Option Text} {os : List (Occurrence α)}
    (h : site ∈ Setting.sites { here with making := making } os) : site.Within here p := by
  obtain ⟨o, -, rfl⟩ := List.mem_map.1 h
  exact .inl rfl

end Site.Within

end Scoping

open Scoping

variable {α : Type}

namespace Stmt

mutual

/-- **The sites of a statement are in the scopes that open in it**, or in the
one it stands in. -/
theorem within_sites : ∀ (s : Stmt α) (here : Setting) (p : Position),
    ∀ site ∈ s.sites here p, site.Within here p
  | block _ body, here, p, site, hsite => (within_sitesAll body _ p 0 site hsite).of_inside
  | expr _, here, p, site, hsite => .of_mem_sites hsite
  | print _ _, here, p, site, hsite => .of_mem_sites hsite
  | varDecl _ _, here, p, site, hsite => by
    rcases List.mem_cons.1 hsite with rfl | hsite
    · exact .inl rfl
    · exact .of_mem_sites hsite
  | branch _ _ yes no, here, p, site, hsite => by
    simp only [sites, List.mem_append] at hsite
    rcases hsite with hsite | hsite | hsite
    · exact .of_mem_sites hsite
    · exact (within_sites yes here _ site hsite).of_suffix (List.suffix_cons 0 p)
    · exact (within_sitesOption no here _ site hsite).of_suffix (List.suffix_cons 1 p)
  | loop _ _ body, here, p, site, hsite => by
    simp only [sites, List.mem_append] at hsite
    rcases hsite with hsite | hsite
    · exact .of_mem_sites hsite
    · exact (within_sitesOption body here _ site hsite).of_suffix (List.suffix_cons 0 p)
  | forLoop _ initial cond step body, here, p, site, hsite => by
    have hinner : ∀ inner : Setting,
        site ∈ sitesOption inner (0 :: p) initial ++
          (inner.sites (Expr.occurrencesOption cond) ++
            (sitesOption inner (1 :: p) body ++ inner.sites (Expr.occurrencesOption step))) →
        site.Within inner p := by
      intro inner hmem
      simp only [List.mem_append] at hmem
      rcases hmem with hmem | hmem | hmem | hmem
      · exact (within_sitesOption initial inner _ site hmem).of_suffix (List.suffix_cons 0 p)
      · exact .of_mem_sites hmem
      · exact (within_sitesOption body inner _ site hmem).of_suffix (List.suffix_cons 1 p)
      · exact .of_mem_sites hmem
    have hwithin := hinner _ hsite
    split at hwithin
    · exact hwithin.of_inside
    · exact hwithin
  | function decl, here, p, site, hsite => by
    rcases List.mem_cons.1 hsite with rfl | hsite
    · exact .inl rfl
    · exact within_sitesRoutine decl here p site hsite
  | ret _ _, here, p, site, hsite => by
    rcases List.mem_cons.1 hsite with rfl | hsite
    · exact .inl rfl
    · exact .of_mem_sites hsite
  | classDecl _ _ methods, here, p, site, hsite => by
    simp only [sites, List.mem_cons, List.mem_append] at hsite
    rcases hsite with rfl | hsite | rfl | hsite
    · exact .inl rfl
    · exact .of_mem_sites hsite
    · have hinside : Site.Within (here.inside .methods p) p
          (⟨here.inside .methods p, .receiverScope⟩ : Site α) := .inl rfl
      exact hinside.of_inside
    · exact (within_sitesMethods methods _ p 0 site hsite).of_inside

theorem within_sitesAll : ∀ (ss : List (Stmt α)) (here : Setting) (p : Position) (i : Nat),
    ∀ site ∈ sitesAll here p i ss, site.Within here p
  | [], _, _, _, _, hsite => by cases hsite
  | s :: rest, here, p, i, site, hsite => by
    rcases List.mem_append.1 hsite with hsite | hsite
    · exact (within_sites s here _ site hsite).of_suffix (List.suffix_cons i p)
    · exact within_sitesAll rest here p (i + 1) site hsite

theorem within_sitesOption : ∀ (s : Option (Stmt α)) (here : Setting) (p : Position),
    ∀ site ∈ sitesOption here p s, site.Within here p
  | none, _, _, _, hsite => by cases hsite
  | some s, here, p, site, hsite => within_sites s here p site hsite

theorem within_sitesRoutine : ∀ (decl : Routine (Stmt α)) (here : Setting) (p : Position),
    ∀ site ∈ sitesRoutine here p decl, site.Within here p
  | ⟨_, _, body⟩, here, p, site, hsite => by
    rcases List.mem_append.1 hsite with hsite | hsite
    · have hinside : site.Within (here.inside .routine p) p := .of_mem_sites hsite
      exact hinside.of_inside
    · exact (within_sitesAll body _ p 0 site hsite).of_inside

theorem within_sitesMethods : ∀ (ms : List (Routine (Stmt α))) (here : Setting) (p : Position)
    (i : Nat), ∀ site ∈ sitesMethods here p i ms, site.Within here p
  | [], _, _, _, _, hsite => by cases hsite
  | m :: rest, here, p, i, site, hsite => by
    rcases List.mem_append.1 hsite with hsite | hsite
    · exact (within_sitesRoutine m here _ site hsite).of_suffix (List.suffix_cons i p)
    · exact within_sitesMethods rest here p (i + 1) site hsite

end

end Stmt

namespace Scoping

/-- What stands at a position is still to come: no site so far is in a scope
that opens there or further inside, and the scopes around open further out. -/
structure Ahead (here : Setting) (p : Position) (earlier : List (Site α)) : Prop where
  idle : here.making = none
  outside : ∀ scope ∈ here.scopes, scope.position.length < p.length
  fresh : ∀ site ∈ earlier, ∀ scope ∈ site.setting.scopes.head?, ¬ p <:+ scope.position

namespace Ahead

variable {here : Setting} {p : Position} {earlier new : List (Site α)}

/-- A part of what is still to come is so too. -/
theorem part (h : Ahead here p earlier) (i : Nat) : Ahead here (i :: p) earlier where
  idle := h.idle
  outside := fun scope hscope => Nat.lt_succ_of_lt (h.outside scope hscope)
  fresh := fun site hsite scope hscope hsuffix =>
    h.fresh site hsite scope hscope ((List.suffix_cons i p).trans hsuffix)

/-- So is a part in a scope that is opened here. -/
theorem inside (h : Ahead here p earlier) (opening : Opening) (i : Nat) :
    Ahead (here.inside opening p) (i :: p) earlier where
  idle := rfl
  outside := by
    intro scope hscope
    rcases List.mem_cons.1 hscope with rfl | hscope
    · exact Nat.lt_succ_self _
    · exact Nat.lt_succ_of_lt (h.outside scope hscope)
  fresh := (h.part i).fresh

/-- Sites elsewhere leave it to come. -/
theorem append (h : Ahead here p earlier)
    (hnew : ∀ site ∈ new, site.setting.scopes.head? = here.scopes.head? ∨
      ∀ scope ∈ site.setting.scopes.head?, ¬ p <:+ scope.position) :
    Ahead here p (earlier ++ new) where
  idle := h.idle
  outside := h.outside
  fresh := by
    intro site hsite scope hscope hsuffix
    rcases List.mem_append.1 hsite with hsite | hsite
    · exact h.fresh site hsite scope hscope hsuffix
    · rcases hnew site hsite with hhere | helse
      · rw [hhere] at hscope
        have hlength := h.outside scope (List.mem_of_mem_head? hscope)
        have := hsuffix.length_le
        omega
      · exact helse scope hscope hsuffix

theorem append_sites (h : Ahead here p earlier) (os : List (Occurrence α)) :
    Ahead here p (earlier ++ here.sites os) := by
  refine h.append fun site hsite => .inl ?_
  obtain ⟨o, -, rfl⟩ := List.mem_map.1 hsite
  rfl

/-- **What stands beside a part is still to come after it.** -/
theorem beside {i j : Nat} (h : Ahead here (j :: p) earlier) (hne : i ≠ j)
    (hnew : ∀ site ∈ new, site.Within here (i :: p)) : Ahead here (j :: p) (earlier ++ new) := by
  refine h.append fun site hsite => ?_
  rcases hnew site hsite with hhere | ⟨scope, hscope, hsuffix⟩
  · exact .inl hhere
  · refine .inr fun scope' hscope' hsuffix' => ?_
    obtain rfl := Option.some.inj (hscope.symm.trans hscope')
    -- two ends of equal length of one position
    have hsame :=
      (List.suffix_of_suffix_length_le hsuffix hsuffix' (by simp)).eq_of_length (by simp)
    exact hne (List.cons.inj hsame).1

end Ahead

/-! ## What the stack says -/

/-- **The stack says what the sites so far have declared** in each scope
around, and of the innermost scope which variable is in the making. -/
structure Tracks (here : Setting) (earlier : List (Site α)) (frames : List Frame) : Prop where
  nodup : here.scopes.Nodup
  declared : List.Forall₂ (fun scope frame => ∀ x : Text, frame.contains x =
    declaredIn earlier scope x) here.scopes frames
  making : ∀ (i : Nat) (frame : Frame) (x : Text), frames[i]? = some frame →
    (frame.find? x = some false ↔ i = 0 ∧ here.making = some x)

theorem declaredIn_append (earlier new : List (Site α)) (scope : LocalScope) (x : Text) :
    declaredIn (earlier ++ new) scope x = (declaredIn earlier scope x || declaredIn new scope x) :=
  List.any_append

theorem declaredIn_eq_false_of_undeclaring {new : List (Site α)}
    (h : ∀ site ∈ new, site.occurrence.declared? = none) (scope : LocalScope) (x : Text) :
    declaredIn new scope x = false := by
  refine List.any_eq_false.2 fun site hsite => ?_
  simp [Site.declares, h site hsite]

namespace Tracks

variable {here : Setting} {p : Position} {earlier new : List (Site α)} {frames : List Frame}

/-- The scope at a distance is the innermost one that declares the name. -/
theorem distance (h : Tracks here earlier frames) (x : Text) :
    distance x frames = here.scopes.findIdx? fun scope => declaredIn earlier scope x := by
  have hdeclared := h.declared
  clear h
  generalize here.scopes = scopes at hdeclared
  unfold Scoping.distance
  induction hdeclared with
  | nil => rfl
  | cons hframe _ ih => simp only [List.findIdx?_cons, hframe x, ih]

theorem innermost_eq_false (h : Tracks here earlier frames) (x : Text) :
    innermost x frames = some false ↔ here.scopes ≠ [] ∧ here.making = some x := by
  have hdeclared := h.declared
  have hmaking := h.making 0
  generalize here.scopes = scopes at hdeclared
  cases hdeclared with
  | nil => simp [innermost]
  | @cons scope frame scopes frames _ _ => simpa [innermost] using hmaking frame x rfl

theorem isSome_innermost (h : Tracks here earlier frames) (x : Text) :
    (innermost x frames).isSome =
      here.scopes.head?.any fun scope => declaredIn earlier scope x := by
  have hdeclared := h.declared
  generalize here.scopes = scopes at hdeclared
  cases hdeclared with
  | nil => rfl
  | cons hframe _ => exact hframe x

/-- Sites that declare nothing change nothing. -/
theorem append (h : Tracks here earlier frames)
    (hnew : ∀ site ∈ new, site.occurrence.declared? = none) :
    Tracks here (earlier ++ new) frames where
  nodup := h.nodup
  declared := by
    refine h.declared.imp fun scope frame hframe x => ?_
    rw [hframe x, declaredIn_append, declaredIn_eq_false_of_undeclaring hnew, Bool.or_false]
  making := h.making

/-- **A declaration goes into the innermost scope.** -/
theorem mark {making : Option Text} {o : Occurrence α} {x : Text} {b : Bool}
    (h : Tracks here earlier frames) (hidle : here.making = none) (ho : o.declared? = some x)
    (hmaking : making = if b then none else some x) :
    Tracks { here with making := making } (earlier ++ [⟨here, o⟩]) (mark x b frames) := by
  obtain ⟨scopes, idle⟩ := here
  obtain ⟨hnodup, hdeclared, hreadable⟩ := h
  dsimp only at hidle hnodup hdeclared hreadable
  subst hidle
  cases hdeclared with
  | nil => exact ⟨hnodup, .nil, fun i frame y hframe => by cases hframe⟩
  | @cons scope frame scopes frames hframe houter =>
    have hinner : ∀ scope' y, declaredIn [(⟨⟨scope :: scopes, none⟩, o⟩ : Site α)] scope' y =
        (decide (scope = scope') && decide (x = y)) := by
      intro scope' y
      simp [declaredIn, Site.declares, ho]
    refine ⟨hnodup, .cons ?_ ?_, ?_⟩
    · intro y
      rw [declaredIn_append, hinner, ← hframe y]
      by_cases hy : x = y
      · subst hy
        simp [Table.contains, Table.find?_insert_self]
      · simp [Table.contains, Table.find?_insert_of_ne frame b (Ne.symm hy), hy]
    · -- the scopes further out are other ones
      have hother : ∀ scope' ∈ scopes, scope ≠ scope' := by
        rintro scope' hscope' rfl
        exact (List.nodup_cons.1 hnodup).1 hscope'
      refine ((List.forall₂_and_left _ _).2 ⟨hother, houter⟩).imp ?_
      rintro scope' frame' ⟨hne, hframe'⟩ y
      simp [hframe' y, declaredIn_append, hinner, hne]
    · intro i frame' y hframe'
      cases i with
      | zero =>
        obtain rfl := Option.some.inj hframe'
        by_cases hy : x = y
        · subst hy
          cases b <;> simp [hmaking, Table.find?_insert_self]
        · rw [Table.find?_insert_of_ne frame b (Ne.symm hy)]
          have hfind := hreadable 0 frame y rfl
          cases b <;> simp_all
      | succ i => simpa using hreadable (i + 1) frame' y hframe'

/-- Between statements nothing is in the making. -/
theorem readable (h : Tracks here earlier frames) (hidle : here.making = none) {i : Nat}
    {frame : Frame} (hframe : frames[i]? = some frame) (x : Text) :
    frame.find? x ≠ some false := by
  intro hfind
  have hmaking := ((h.making i frame x hframe).1 hfind).2
  rw [hidle] at hmaking
  cases hmaking

/-- **A scope that opens has nothing declared in it.** -/
theorem inside (h : Tracks here earlier frames) (hahead : Ahead here p earlier)
    (opening : Opening) : Tracks (here.inside opening p) earlier (.empty :: frames) where
  nodup := by
    refine List.nodup_cons.2 ⟨fun hmem => ?_, h.nodup⟩
    exact Nat.lt_irrefl _ (hahead.outside _ hmem)
  declared := by
    refine .cons (fun x => ?_) h.declared
    symm
    refine List.any_eq_false.2 fun site hsite hdeclares => ?_
    simp only [Site.declares, Bool.and_eq_true, decide_eq_true_eq] at hdeclares
    exact hahead.fresh site hsite _ hdeclares.1 List.suffix_rfl
  making := by
    intro i frame x hframe
    cases i with
    | zero =>
      obtain rfl := Option.some.inj hframe
      constructor
      · nofun
      · nofun
    | succ i =>
      have hreadable := h.readable hahead.idle hframe x
      simp [hreadable]

/-- What was declared in a scope is gone after it. -/
theorem outside {opening : Opening} (h : Tracks (here.inside opening p) earlier frames)
    (hidle : here.making = none) : Tracks here earlier frames.tail := by
  obtain ⟨hnodup, hdeclared, hmaking⟩ := h
  cases hdeclared with
  | cons _ houter =>
    refine ⟨(List.nodup_cons.1 hnodup).2, houter, ?_⟩
    intro i frame x hframe
    have hfind := hmaking (i + 1) frame x hframe
    simpa [hidle] using hfind

end Tracks

/-! ## Accounts -/

/-- The address of a site is the distance to the innermost scope that
declares the name so far. -/
def Site.Addressed (earlier : List (Site Address)) (site : Site Address) : Prop :=
  match site.occurrence with
  | .read name address =>
    address = site.setting.scopes.findIdx? fun scope => declaredIn earlier scope name.lexeme
  | .write name address =>
    address = site.setting.scopes.findIdx? fun scope => declaredIn earlier scope name.lexeme
  | .receiver keyword address =>
    address = if site.setting.inClass then
      site.setting.scopes.findIdx? fun scope => declaredIn earlier scope keyword.lexeme else none
  | _ => True

/-- Each of the sites is addressed after those before it. -/
def AddressedAfter (earlier : List (Site Address)) : List (Site Address) → Prop
  | [] => True
  | site :: later => site.Addressed earlier ∧ AddressedAfter (earlier ++ [site]) later

theorem addressedAfter_append (earlier new more : List (Site Address)) :
    AddressedAfter earlier (new ++ more) ↔
      AddressedAfter earlier new ∧ AddressedAfter (earlier ++ new) more := by
  induction new generalizing earlier with
  | nil => simp [AddressedAfter]
  | cons site later ih =>
    simp only [List.cons_append, AddressedAfter, ih, List.append_assoc, List.nil_append, and_assoc]

theorem violationsAfter_append (earlier new more : List (Site α)) :
    violationsAfter earlier (new ++ more) =
      violationsAfter earlier new ++ violationsAfter (earlier ++ new) more := by
  induction new generalizing earlier with
  | nil => simp [violationsAfter]
  | cons site later ih =>
    simp only [List.cons_append, violationsAfter, ih, List.append_assoc, List.nil_append]

/-- **A step of resolution accounts for the sites it goes over**: it reports
their violations, gives them their addresses, and leaves a stack that says
what has been declared now. -/
structure Accounts (here : Setting) (earlier new : List (Site Address)) (frames : List Frame)
    (issues : List Issue) : Prop where
  issues : issues = violationsAfter earlier new
  addressed : AddressedAfter earlier new
  tracks : Tracks here (earlier ++ new) frames

namespace Accounts

variable {here : Setting} {earlier new more : List (Site Address)} {frames frames' : List Frame}
  {issues issues' : List Issue}

theorem nil (h : Tracks here earlier frames) : Accounts here earlier [] frames [] :=
  ⟨rfl, trivial, by rwa [List.append_nil]⟩

/-- One step after another. -/
theorem append (h : Accounts here earlier new frames issues)
    (h' : Accounts here (earlier ++ new) more frames' issues') :
    Accounts here earlier (new ++ more) frames' (issues ++ issues') where
  issues := by rw [violationsAfter_append, ← h.issues, ← h'.issues]
  addressed := (addressedAfter_append _ _ _).2 ⟨h.addressed, h'.addressed⟩
  tracks := by
    rw [← List.append_assoc]
    exact h'.tracks

/-- A site that declares nothing. -/
theorem site {o : Occurrence Address} (h : Tracks here earlier frames)
    (ho : o.declared? = none) (hissues : issues = Site.violations earlier ⟨here, o⟩)
    (haddressed : Site.Addressed earlier ⟨here, o⟩) :
    Accounts here earlier [⟨here, o⟩] frames issues where
  issues := by rw [hissues, violationsAfter, violationsAfter, List.append_nil]
  addressed := ⟨haddressed, trivial⟩
  tracks := h.append fun site hsite => by rw [List.mem_singleton.1 hsite]; exact ho

end Accounts

theorem Setting.sites_append (here : Setting) (os more : List (Occurrence α)) :
    here.sites (os ++ more) = here.sites os ++ here.sites more := List.map_append

/-- What resolution is told of a setting. -/
def Setting.surroundings (here : Setting) : Surroundings := ⟨here.inFunction, here.inClass⟩

/-! ## Expressions -/

section

variable {here : Setting} {earlier : List (Site Address)} {frames : List Frame}

/-- A variable that is read. -/
theorem read_accounts (h : Tracks here earlier frames) (name : Token) :
    Accounts here earlier [⟨here, .read name (distance name.lexeme frames)⟩] frames
      (if innermost name.lexeme frames = some false then [⟨name, .ownInitial⟩] else []) := by
  refine .site h rfl ?_ (h.distance name.lexeme)
  simp only [Site.violations, h.innermost_eq_false]

mutual

/-- **Resolving an expression accounts for what it does.** -/
theorem resolveExpr_accounts : ∀ (e : Expr Unit) (earlier : List (Site Address)),
    Tracks here earlier frames →
    Accounts here earlier
      (here.sites (resolveExpr here.surroundings e frames).value.occurrences) frames
      (resolveExpr here.surroundings e frames).issues
  | .literal _ _, _, h => .nil h
  | .grouping _ inner, earlier, h => by
    simp only [resolveExpr, Step.bind_run, Step.pure_run, List.append_nil]
    exact resolveExpr_accounts inner earlier h
  | .unary _ operand, earlier, h => by
    simp only [resolveExpr, Step.bind_run, Step.pure_run, List.append_nil]
    exact resolveExpr_accounts operand earlier h
  | .binary left _ right, earlier, h => by
    simp only [resolveExpr, Step.bind_run, Step.pure_run, frames_resolveExpr, List.append_nil,
      Expr.occurrences, Setting.sites_append]
    have hleft := resolveExpr_accounts left earlier h
    exact hleft.append (resolveExpr_accounts right _ hleft.tracks)
  | .ternary cond _ yes no, earlier, h => by
    simp only [resolveExpr, Step.bind_run, Step.pure_run, frames_resolveExpr, List.append_nil,
      Expr.occurrences, Setting.sites_append]
    have hcond := resolveExpr_accounts cond earlier h
    have hyes := resolveExpr_accounts yes _ hcond.tracks
    exact hcond.append (hyes.append (resolveExpr_accounts no _ hyes.tracks))
  | .logical left _ right, earlier, h => by
    simp only [resolveExpr, Step.bind_run, Step.pure_run, frames_resolveExpr, List.append_nil,
      Expr.occurrences, Setting.sites_append]
    have hleft := resolveExpr_accounts left earlier h
    exact hleft.append (resolveExpr_accounts right _ hleft.tracks)
  | .var name _, earlier, h => by
    simp only [resolveExpr, Step.bind_run, Step.pure_run, checkReadable_run, locate_run,
      List.append_nil]
    exact read_accounts h name
  | .assign name _ value, earlier, h => by
    simp only [resolveExpr, Step.bind_run, Step.pure_run, frames_resolveExpr, locate_run,
      Expr.occurrences, Setting.sites_append]
    have hvalue := resolveExpr_accounts value earlier h
    exact hvalue.append (.site hvalue.tracks rfl rfl (hvalue.tracks.distance name.lexeme))
  | .call callee _ args, earlier, h => by
    simp only [resolveExpr, Step.bind_run, Step.pure_run, frames_resolveExpr, List.append_nil,
      Expr.occurrences, Setting.sites_append]
    have hcallee := resolveExpr_accounts callee earlier h
    exact hcallee.append (resolveExprs_accounts args _ hcallee.tracks)
  | .get object _, earlier, h => by
    simp only [resolveExpr, Step.bind_run, Step.pure_run, List.append_nil]
    exact resolveExpr_accounts object earlier h
  | .set object _ value, earlier, h => by
    simp only [resolveExpr, Step.bind_run, Step.pure_run, frames_resolveExpr, List.append_nil,
      Expr.occurrences, Setting.sites_append]
    have hvalue := resolveExpr_accounts value earlier h
    exact hvalue.append (resolveExpr_accounts object _ hvalue.tracks)
  | .receiver keyword _, earlier, h => by
    simp only [resolveExpr]
    by_cases hclass : here.inClass = true
    · rw [if_pos (show here.surroundings.inClass = true from hclass)]
      refine .site h rfl ?_ ?_
      · simp [Site.violations, hclass, Step.bind_run, Step.pure_run, locate_run]
      · simp [Site.Addressed, hclass, locate_run, h.distance]
    · rw [if_neg (show here.surroundings.inClass ≠ true from hclass)]
      refine .site h rfl ?_ ?_
      · simp [Site.violations, hclass, Step.bind_run, Step.pure_run, complain_run]
      · simp [Site.Addressed, hclass]

/-- The same for expressions in a row. -/
theorem resolveExprs_accounts : ∀ (es : List (Expr Unit)) (earlier : List (Site Address)),
    Tracks here earlier frames →
    Accounts here earlier
      (here.sites (Expr.occurrencesAll (resolveExprs here.surroundings es frames).value)) frames
      (resolveExprs here.surroundings es frames).issues
  | [], _, h => .nil h
  | e :: rest, earlier, h => by
    simp only [resolveExprs, Step.bind_run, Step.pure_run, frames_resolveExpr, List.append_nil,
      Expr.occurrencesAll, Setting.sites_append]
    have hfirst := resolveExpr_accounts e earlier h
    exact hfirst.append (resolveExprs_accounts rest _ hfirst.tracks)

end

theorem resolveOption_accounts (h : Tracks here earlier frames) (e : Option (Expr Unit)) :
    Accounts here earlier
      (here.sites (Expr.occurrencesOption (resolveOption here.surroundings e frames).value)) frames
      (resolveOption here.surroundings e frames).issues := by
  cases e with
  | none => exact .nil h
  | some e =>
    simp only [resolveOption, Step.bind_run, Step.pure_run, List.append_nil]
    exact resolveExpr_accounts e earlier h

/-- The superclass of a class, which is read like a variable. -/
theorem resolveSuperclass_accounts (h : Tracks here earlier frames) (name : Token)
    (superclass : Option (Token × Unit)) :
    Accounts here earlier
      (here.sites (Stmt.superclassOccurrences name
        (resolveSuperclass name superclass frames).value)) frames
      (resolveSuperclass name superclass frames).issues := by
  cases superclass with
  | none => exact .nil h
  | some named =>
    have hself : Accounts here earlier [⟨here, .subclass name named.1⟩] frames
        (if named.1.lexeme = name.lexeme then [⟨named.1, .selfSuperclass⟩] else []) :=
      .site h rfl rfl trivial
    have hboth := hself.append (read_accounts hself.tracks named.1)
    by_cases hsame : named.1.lexeme = name.lexeme
    · rw [if_pos hsame] at hboth
      simp only [resolveSuperclass, if_pos hsame, Step.bind_run, Step.pure_run, complain_run,
        checkReadable_run, locate_run, List.append_nil]
      exact hboth
    · rw [if_neg hsame] at hboth
      simp only [resolveSuperclass, if_neg hsame, Step.bind_run, Step.pure_run,
        checkReadable_run, locate_run, List.append_nil]
      exact hboth

end

end Scoping

namespace Expr

mutual

/-- Expressions declare nothing. -/
theorem declared?_of_mem_occurrences : ∀ (e : Expr α), ∀ o ∈ e.occurrences, o.declared? = none
  | literal _ _, _, ho => by cases ho
  | grouping _ inner, o, ho => declared?_of_mem_occurrences inner o ho
  | unary _ operand, o, ho => declared?_of_mem_occurrences operand o ho
  | binary left _ right, o, ho => by
    rcases List.mem_append.1 ho with ho | ho
    · exact declared?_of_mem_occurrences left o ho
    · exact declared?_of_mem_occurrences right o ho
  | ternary cond _ yes no, o, ho => by
    simp only [occurrences, List.mem_append] at ho
    rcases ho with ho | ho | ho
    · exact declared?_of_mem_occurrences cond o ho
    · exact declared?_of_mem_occurrences yes o ho
    · exact declared?_of_mem_occurrences no o ho
  | logical left _ right, o, ho => by
    rcases List.mem_append.1 ho with ho | ho
    · exact declared?_of_mem_occurrences left o ho
    · exact declared?_of_mem_occurrences right o ho
  | var _ _, o, ho => by
    rw [List.mem_singleton.1 ho]
    rfl
  | assign _ _ value, o, ho => by
    rcases List.mem_append.1 ho with ho | ho
    · exact declared?_of_mem_occurrences value o ho
    · rw [List.mem_singleton.1 ho]
      rfl
  | call callee _ args, o, ho => by
    rcases List.mem_append.1 ho with ho | ho
    · exact declared?_of_mem_occurrences callee o ho
    · exact declared?_of_mem_occurrencesAll args o ho
  | get object _, o, ho => declared?_of_mem_occurrences object o ho
  | set object _ value, o, ho => by
    rcases List.mem_append.1 ho with ho | ho
    · exact declared?_of_mem_occurrences value o ho
    · exact declared?_of_mem_occurrences object o ho
  | receiver _ _, o, ho => by
    rw [List.mem_singleton.1 ho]
    rfl

theorem declared?_of_mem_occurrencesAll : ∀ (es : List (Expr α)), ∀ o ∈ occurrencesAll es,
    o.declared? = none
  | [], _, ho => by cases ho
  | e :: rest, o, ho => by
    rcases List.mem_append.1 ho with ho | ho
    · exact declared?_of_mem_occurrences e o ho
    · exact declared?_of_mem_occurrencesAll rest o ho

end

theorem declared?_of_mem_occurrencesOption : ∀ (e : Option (Expr α)),
    ∀ o ∈ occurrencesOption e, o.declared? = none
  | none, _, ho => by cases ho
  | some e, o, ho => declared?_of_mem_occurrences e o ho

end Expr

namespace Scoping

/-! ## Statements -/

section

variable {here : Setting} {p : Position} {earlier new : List (Site Address)} {frames : List Frame}
  {issues : List Issue}

@[simp] theorem surroundings_inside_block (here : Setting) (p : Position) :
    (here.inside .block p).surroundings = here.surroundings := by
  simp [Setting.surroundings, Setting.inside, Setting.inFunction, Setting.inClass]

@[simp] theorem surroundings_inside_routine (here : Setting) (p : Position) :
    (here.inside .routine p).surroundings = { here.surroundings with inFunction := true } := by
  simp [Setting.surroundings, Setting.inside, Setting.inFunction, Setting.inClass]

@[simp] theorem surroundings_inside_methods (here : Setting) (p : Position) :
    (here.inside .methods p).surroundings = { here.surroundings with inClass := true } := by
  simp [Setting.surroundings, Setting.inside, Setting.inFunction, Setting.inClass]

/-- What is accounted for in a scope is accounted for outside it. -/
theorem Accounts.outside {opening : Opening}
    (h : Accounts (here.inside opening p) earlier new frames issues)
    (hidle : here.making = none) : Accounts here earlier new frames.tail issues :=
  ⟨h.issues, h.addressed, h.tracks.outside hidle⟩

/-- A name declared, whether or not it can be read yet. -/
theorem declare_accounts (h : Tracks here earlier frames) (hidle : here.making = none)
    (name : Token) (making : Option Text) (b : Bool)
    (hmaking : making = if b then none else some name.lexeme) :
    Accounts { here with making := making } earlier [⟨here, .declaration name⟩]
      (mark name.lexeme b frames)
      (if (innermost name.lexeme frames).isSome then [⟨name, .alreadyDeclared⟩] else []) where
  issues := by
    simp only [violationsAfter, Site.violations, List.append_nil, h.isSome_innermost]
  addressed := ⟨trivial, trivial⟩
  tracks := h.mark hidle rfl hmaking

/-- A name declared that can be read at once. -/
theorem declare_define_accounts (h : Tracks here earlier frames) (hidle : here.making = none)
    (name : Token) :
    Accounts here earlier [⟨here, .declaration name⟩] (mark name.lexeme true frames)
      (if (innermost name.lexeme frames).isSome then [⟨name, .alreadyDeclared⟩] else []) :=
  declare_accounts h hidle name here.making true hidle

theorem declareAll_accounts (hidle : here.making = none) : ∀ (params : List Token)
    (earlier : List (Site Address)) (frames : List Frame), Tracks here earlier frames →
    Accounts here earlier (here.sites (params.map .declaration)) (declareAll params frames).frames
      (declareAll params frames).issues
  | [], _, _, h => .nil h
  | name :: rest, earlier, frames, h => by
    simp only [declareAll, Step.bind_run, declare_run, define_run, mark_mark, List.nil_append]
    have hname := declare_define_accounts h hidle name
    exact hname.append (declareAll_accounts hidle rest _ _ hname.tracks)

/-- The scope of a class starts with `this`. -/
theorem receiverScope_accounts (h : Tracks here earlier frames) (hahead : Ahead here p earlier) :
    Accounts (here.inside .methods p) earlier [⟨here.inside .methods p, .receiverScope⟩]
      (thisFrame :: frames) [] where
  issues := rfl
  addressed := ⟨trivial, trivial⟩
  tracks := (h.inside hahead .methods).mark (b := true) rfl rfl rfl

end

/-- A condition, a body and a step, the parts of a `for` loop that are
evaluated again and again. -/
theorem rounds_accounts {here : Setting} {p : Position} {earlier : List (Site Address)}
    {frames : List Frame} {body : Option (Stmt Unit)}
    (hbody : ∀ (earlier : List (Site Address)) (frames : List Frame), Ahead here p earlier →
      Tracks here earlier frames →
      Accounts here earlier
        (Stmt.sitesOption here p (resolveOptionStmt here.surroundings body frames).value)
        (resolveOptionStmt here.surroundings body frames).frames
        (resolveOptionStmt here.surroundings body frames).issues)
    (cond step : Option (Expr Unit)) (hahead : Ahead here p earlier)
    (h : Tracks here earlier frames) :
    let afterBody := (resolveOptionStmt here.surroundings body frames).frames
    Accounts here earlier
      (here.sites (Expr.occurrencesOption (resolveOption here.surroundings cond frames).value) ++
        (Stmt.sitesOption here p (resolveOptionStmt here.surroundings body frames).value ++
          here.sites
            (Expr.occurrencesOption (resolveOption here.surroundings step afterBody).value)))
      afterBody
      ((resolveOption here.surroundings cond frames).issues ++
        ((resolveOptionStmt here.surroundings body frames).issues ++
          (resolveOption here.surroundings step afterBody).issues)) := by
  intro afterBody
  have hcond := resolveOption_accounts h cond
  have hrest := hbody _ _ (hahead.append_sites _) hcond.tracks
  exact hcond.append (hrest.append (resolveOption_accounts hrest.tracks step))

mutual

/-- **Resolving a statement accounts for its sites.** -/
theorem resolveStmt_accounts : ∀ (s : Stmt Unit) (here : Setting) (p : Position)
    (earlier : List (Site Address)) (frames : List Frame),
    Ahead here p earlier → Tracks here earlier frames →
    Accounts here earlier ((resolveStmt here.surroundings s frames).value.sites here p)
      (resolveStmt here.surroundings s frames).frames
      (resolveStmt here.surroundings s frames).issues
  | .block _ body, here, p, earlier, frames, hahead, h => by
    simp only [resolveStmt, Step.bind_run, Step.pure_run, inScope_run, List.append_nil,
      Stmt.sites]
    have hbody := resolveStmts_accounts body (here.inside .block p) p 0 earlier _
      (fun j _ => hahead.inside .block j) (h.inside hahead .block)
    rw [surroundings_inside_block] at hbody
    exact hbody.outside hahead.idle
  | .expr e, here, p, earlier, frames, _, h => by
    simp only [resolveStmt, Step.bind_run, Step.pure_run, frames_resolveExpr, List.append_nil,
      Stmt.sites]
    exact resolveExpr_accounts e earlier h
  | .print _ value, here, p, earlier, frames, _, h => by
    simp only [resolveStmt, Step.bind_run, Step.pure_run, frames_resolveExpr, List.append_nil,
      Stmt.sites]
    exact resolveExpr_accounts value earlier h
  | .varDecl name initial, here, p, earlier, frames, hahead, h => by
    simp only [resolveStmt, Step.bind_run, Step.pure_run, declare_run, define_run,
      frames_resolveOption, mark_mark, List.append_nil, Stmt.sites]
    -- the first value is resolved while the variable is in the making
    have hname := declare_accounts h hahead.idle name (some name.lexeme) false rfl
    have hboth := hname.append (resolveOption_accounts hname.tracks initial)
    refine ⟨hboth.issues, hboth.addressed, ?_⟩
    have hdefined := (declare_define_accounts h hahead.idle name).tracks
    rw [← List.singleton_append, ← List.append_assoc]
    refine hdefined.append fun site hsite => ?_
    obtain ⟨o, ho, rfl⟩ := List.mem_map.1 hsite
    exact Expr.declared?_of_mem_occurrencesOption _ o ho
  | .branch _ cond yes no, here, p, earlier, frames, hahead, h => by
    simp only [resolveStmt, Step.bind_run, Step.pure_run, frames_resolveExpr, List.append_nil,
      Stmt.sites]
    have hcond := resolveExpr_accounts cond earlier h
    have hahead' := hahead.append_sites
      (resolveExpr here.surroundings cond frames).value.occurrences
    have hyes := resolveStmt_accounts yes here (0 :: p) _ _ (hahead'.part 0) hcond.tracks
    have hno := resolveOptionStmt_accounts no here (1 :: p) _ _
      ((hahead'.part 1).beside Nat.zero_ne_one (Stmt.within_sites _ here _)) hyes.tracks
    exact hcond.append (hyes.append hno)
  | .loop _ cond body, here, p, earlier, frames, hahead, h => by
    simp only [resolveStmt, Step.bind_run, Step.pure_run, frames_resolveExpr, List.append_nil,
      Stmt.sites]
    have hcond := resolveExpr_accounts cond earlier h
    have hahead' := hahead.append_sites
      (resolveExpr here.surroundings cond frames).value.occurrences
    exact hcond.append
      (resolveOptionStmt_accounts body here (0 :: p) _ _ (hahead'.part 0) hcond.tracks)
  | .forLoop _ none cond step body, here, p, earlier, frames, hahead, h => by
    simp only [resolveStmt, inScopeIf, Option.isSome_none, Bool.false_eq_true, if_false,
      resolveOptionStmt, Step.bind_run, Step.pure_run, frames_resolveOption, List.append_nil,
      List.nil_append, Stmt.sites, Stmt.sitesOption]
    exact rounds_accounts (resolveOptionStmt_accounts body here (1 :: p)) cond step
      (hahead.part 1) h
  | .forLoop _ (some initial) cond step body, here, p, earlier, frames, hahead, h => by
    simp only [resolveStmt, inScopeIf, Option.isSome_some, if_true, inScope_run,
      resolveOptionStmt, Step.bind_run, Step.pure_run, frames_resolveOption, List.append_nil,
      Stmt.sites, Stmt.sitesOption]
    have hinitial := resolveStmt_accounts initial (here.inside .block p) (0 :: p) earlier _
      (hahead.inside .block 0) (h.inside hahead .block)
    have hrounds := rounds_accounts (resolveOptionStmt_accounts body _ (1 :: p)) cond step
      ((hahead.inside .block 1).beside Nat.zero_ne_one (Stmt.within_sites _ _ _)) hinitial.tracks
    rw [surroundings_inside_block] at hinitial hrounds
    exact (hinitial.append hrounds).outside hahead.idle
  | .function decl, here, p, earlier, frames, hahead, h => by
    simp only [resolveStmt, Step.bind_run, Step.pure_run, declare_run, define_run, mark_mark,
      List.append_nil, List.nil_append, Stmt.sites, name_resolveRoutine]
    have hname := declare_define_accounts h hahead.idle decl.name
    exact hname.append (resolveRoutine_accounts decl here p _ _
      (hahead.append_sites [.declaration decl.name]) hname.tracks)
  | .ret keyword value, here, p, earlier, frames, hahead, h => by
    have hret : Accounts here earlier [⟨here, .ret keyword⟩] frames
        (if here.surroundings.inFunction then [] else [⟨keyword, .returnOutside⟩]) :=
      .site h rfl rfl trivial
    have hboth := hret.append (resolveOption_accounts hret.tracks value)
    simp only [resolveStmt]
    by_cases hinside : here.surroundings.inFunction = true
    · rw [if_pos hinside] at hboth ⊢
      simp only [Step.bind_run, Step.pure_run, frames_resolveOption, List.append_nil, Stmt.sites]
      exact hboth
    · rw [if_neg hinside] at hboth ⊢
      simp only [Step.bind_run, Step.pure_run, complain_run, frames_resolveOption,
        List.append_nil, Stmt.sites]
      exact hboth
  | .classDecl name superclass methods, here, p, earlier, frames, hahead, h => by
    simp only [resolveStmt, Step.bind_run, Step.pure_run, declare_run, define_run, mark_mark,
      frames_resolveSuperclass, inScope_run, List.append_nil, List.nil_append, Stmt.sites]
    have hname := declare_define_accounts h hahead.idle name
    have hsuper := resolveSuperclass_accounts hname.tracks name superclass
    have hahead' := (hahead.append_sites [.declaration name]).append_sites
      (Stmt.superclassOccurrences name
        (resolveSuperclass name superclass (mark name.lexeme true frames)).value)
    -- the methods are in a scope of their own, which starts with `this`
    have hthis := receiverScope_accounts hsuper.tracks hahead'
    have hmethods := resolveMethods_accounts methods (here.inside .methods p) p 0 _ _
      (fun j _ => (hahead'.inside .methods j).append_sites [.receiverScope]) hthis.tracks
    rw [surroundings_inside_methods] at hmethods
    exact hname.append (hsuper.append ((hthis.append hmethods).outside hahead.idle))

/-- The same for statements in a row. -/
theorem resolveStmts_accounts : ∀ (ss : List (Stmt Unit)) (here : Setting) (p : Position) (i : Nat)
    (earlier : List (Site Address)) (frames : List Frame),
    (∀ j, i ≤ j → Ahead here (j :: p) earlier) → Tracks here earlier frames →
    Accounts here earlier
      (Stmt.sitesAll here p i (resolveStmts here.surroundings ss frames).value)
      (resolveStmts here.surroundings ss frames).frames
      (resolveStmts here.surroundings ss frames).issues
  | [], _, _, _, _, _, _, h => .nil h
  | s :: rest, here, p, i, earlier, frames, hahead, h => by
    simp only [resolveStmts, Step.bind_run, Step.pure_run, List.append_nil, Stmt.sitesAll]
    have hfirst := resolveStmt_accounts s here (i :: p) earlier frames (hahead i (Nat.le_refl i)) h
    refine hfirst.append (resolveStmts_accounts rest here p (i + 1) _ _ (fun j hj => ?_)
      hfirst.tracks)
    exact (hahead j (Nat.le_of_lt hj)).beside (Nat.ne_of_lt hj) (Stmt.within_sites _ here _)

/-- The same for a statement that may be missing. -/
theorem resolveOptionStmt_accounts : ∀ (s : Option (Stmt Unit)) (here : Setting) (p : Position)
    (earlier : List (Site Address)) (frames : List Frame),
    Ahead here p earlier → Tracks here earlier frames →
    Accounts here earlier
      (Stmt.sitesOption here p (resolveOptionStmt here.surroundings s frames).value)
      (resolveOptionStmt here.surroundings s frames).frames
      (resolveOptionStmt here.surroundings s frames).issues
  | none, _, _, _, _, _, h => .nil h
  | some s, here, p, earlier, frames, hahead, h => by
    simp only [resolveOptionStmt, Step.bind_run, Step.pure_run, List.append_nil]
    exact resolveStmt_accounts s here p earlier frames hahead h

/-- The same for a function, whose name is declared elsewhere. -/
theorem resolveRoutine_accounts : ∀ (decl : Routine (Stmt Unit)) (here : Setting) (p : Position)
    (earlier : List (Site Address)) (frames : List Frame),
    Ahead here p earlier → Tracks here earlier frames →
    Accounts here earlier
      (Stmt.sitesRoutine here p (resolveRoutine here.surroundings decl frames).value)
      (resolveRoutine here.surroundings decl frames).frames
      (resolveRoutine here.surroundings decl frames).issues
  | ⟨_, params, body⟩, here, p, earlier, frames, hahead, h => by
    simp only [resolveRoutine, inScope_run, Step.bind_run, Step.pure_run, List.append_nil,
      Stmt.sitesRoutine]
    have hparams := declareAll_accounts rfl params earlier _ (h.inside hahead .routine)
    have hbody := resolveStmts_accounts body (here.inside .routine p) p 0 _ _
      (fun j _ => (hahead.inside .routine j).append_sites _) hparams.tracks
    rw [surroundings_inside_routine] at hbody
    exact (hparams.append hbody).outside hahead.idle

/-- The same for methods in a row. -/
theorem resolveMethods_accounts : ∀ (ms : List (Routine (Stmt Unit))) (here : Setting)
    (p : Position) (i : Nat) (earlier : List (Site Address)) (frames : List Frame),
    (∀ j, i ≤ j → Ahead here (j :: p) earlier) → Tracks here earlier frames →
    Accounts here earlier
      (Stmt.sitesMethods here p i (resolveMethods here.surroundings ms frames).value)
      (resolveMethods here.surroundings ms frames).frames
      (resolveMethods here.surroundings ms frames).issues
  | [], _, _, _, _, _, _, h => .nil h
  | m :: rest, here, p, i, earlier, frames, hahead, h => by
    simp only [resolveMethods, Step.bind_run, Step.pure_run, List.append_nil, Stmt.sitesMethods]
    have hfirst := resolveRoutine_accounts m here (i :: p) earlier frames
      (hahead i (Nat.le_refl i)) h
    refine hfirst.append (resolveMethods_accounts rest here p (i + 1) _ _ (fun j hj => ?_)
      hfirst.tracks)
    exact (hahead j (Nat.le_of_lt hj)).beside (Nat.ne_of_lt hj) (Stmt.within_sitesRoutine _ here _)

end

/-! ## The program stays what it is -/

mutual

/-- Resolution changes nothing but addresses. -/
theorem bare_resolveExpr (around : Surroundings) (frames : List Frame) :
    ∀ e : Expr Unit, (resolveExpr around e frames).value.bare = e
  | .literal _ _ => rfl
  | .grouping _ inner => by
    simp only [resolveExpr, Step.bind_run, Step.pure_run, Expr.bare,
      bare_resolveExpr around frames inner]
  | .unary _ operand => by
    simp only [resolveExpr, Step.bind_run, Step.pure_run, Expr.bare,
      bare_resolveExpr around frames operand]
  | .binary left _ right => by
    simp only [resolveExpr, Step.bind_run, Step.pure_run, frames_resolveExpr, Expr.bare,
      bare_resolveExpr around frames left, bare_resolveExpr around frames right]
  | .ternary cond _ yes no => by
    simp only [resolveExpr, Step.bind_run, Step.pure_run, frames_resolveExpr, Expr.bare,
      bare_resolveExpr around frames cond, bare_resolveExpr around frames yes,
      bare_resolveExpr around frames no]
  | .logical left _ right => by
    simp only [resolveExpr, Step.bind_run, Step.pure_run, frames_resolveExpr, Expr.bare,
      bare_resolveExpr around frames left, bare_resolveExpr around frames right]
  | .var _ _ => rfl
  | .assign _ _ value => by
    simp only [resolveExpr, Step.bind_run, Step.pure_run, Expr.bare,
      bare_resolveExpr around frames value]
  | .call callee _ args => by
    simp only [resolveExpr, Step.bind_run, Step.pure_run, frames_resolveExpr, Expr.bare,
      bare_resolveExpr around frames callee, bare_resolveExprs around frames args]
  | .get object _ => by
    simp only [resolveExpr, Step.bind_run, Step.pure_run, Expr.bare,
      bare_resolveExpr around frames object]
  | .set object _ value => by
    simp only [resolveExpr, Step.bind_run, Step.pure_run, frames_resolveExpr, Expr.bare,
      bare_resolveExpr around frames value, bare_resolveExpr around frames object]
  | .receiver _ _ => by
    simp only [resolveExpr]
    split <;> rfl

theorem bare_resolveExprs (around : Surroundings) (frames : List Frame) :
    ∀ es : List (Expr Unit), Expr.bareAll (resolveExprs around es frames).value = es
  | [] => rfl
  | e :: rest => by
    simp only [resolveExprs, Step.bind_run, Step.pure_run, frames_resolveExpr, Expr.bareAll,
      bare_resolveExpr around frames e, bare_resolveExprs around frames rest]

end

theorem bare_resolveOption (around : Surroundings) (frames : List Frame) (e : Option (Expr Unit)) :
    (resolveOption around e frames).value.map Expr.bare = e := by
  cases e with
  | none => rfl
  | some e => exact congrArg some (bare_resolveExpr around frames e)

theorem bare_resolveSuperclass (name : Token) (frames : List Frame)
    (superclass : Option (Token × Unit)) :
    (resolveSuperclass name superclass frames).value.map (fun s => (s.1, ())) = superclass := by
  cases superclass with
  | none => rfl
  | some named =>
    simp only [resolveSuperclass]
    split <;> rfl

mutual

theorem bare_resolveStmt : ∀ (s : Stmt Unit) (around : Surroundings) (frames : List Frame),
    (resolveStmt around s frames).value.bare = s
  | .block _ body, around, frames => by
    simp only [resolveStmt, Step.bind_run, Step.pure_run, inScope_run, Stmt.bare,
      bare_resolveStmts body]
  | .expr e, around, frames => by
    simp only [resolveStmt, Step.bind_run, Step.pure_run, Stmt.bare, bare_resolveExpr]
  | .print _ value, around, frames => by
    simp only [resolveStmt, Step.bind_run, Step.pure_run, Stmt.bare, bare_resolveExpr]
  | .varDecl _ initial, around, frames => by
    simp only [resolveStmt, Step.bind_run, Step.pure_run, Stmt.bare, bare_resolveOption]
  | .branch _ cond yes no, around, frames => by
    simp only [resolveStmt, Step.bind_run, Step.pure_run, Stmt.bare, bare_resolveExpr,
      bare_resolveStmt yes, bare_resolveOptionStmt no]
  | .loop _ cond body, around, frames => by
    simp only [resolveStmt, Step.bind_run, Step.pure_run, Stmt.bare, bare_resolveExpr,
      bare_resolveOptionStmt body]
  | .forLoop _ initial cond step body, around, frames => by
    simp only [resolveStmt, inScopeIf]
    split <;>
      simp only [inScope_run, Step.bind_run, Step.pure_run, Stmt.bare, bare_resolveOption,
        bare_resolveOptionStmt initial, bare_resolveOptionStmt body]
  | .function decl, around, frames => by
    simp only [resolveStmt, Step.bind_run, Step.pure_run, Stmt.bare, bare_resolveRoutine decl]
  | .ret _ value, around, frames => by
    simp only [resolveStmt]
    split <;> simp only [Step.bind_run, Step.pure_run, Stmt.bare, bare_resolveOption]
  | .classDecl name superclass methods, around, frames => by
    simp only [resolveStmt, Step.bind_run, Step.pure_run, inScope_run, Stmt.bare,
      bare_resolveSuperclass, bare_resolveMethods methods]

theorem bare_resolveStmts : ∀ (ss : List (Stmt Unit)) (around : Surroundings)
    (frames : List Frame), Stmt.bareAll (resolveStmts around ss frames).value = ss
  | [], _, _ => rfl
  | s :: rest, around, frames => by
    simp only [resolveStmts, Step.bind_run, Step.pure_run, Stmt.bareAll, bare_resolveStmt s,
      bare_resolveStmts rest]

theorem bare_resolveOptionStmt : ∀ (s : Option (Stmt Unit)) (around : Surroundings)
    (frames : List Frame), Stmt.bareOption (resolveOptionStmt around s frames).value = s
  | none, _, _ => rfl
  | some s, around, frames => congrArg some (bare_resolveStmt s around frames)

theorem bare_resolveRoutine : ∀ (decl : Routine (Stmt Unit)) (around : Surroundings)
    (frames : List Frame), Stmt.bareRoutine (resolveRoutine around decl frames).value = decl
  | ⟨_, _, body⟩, around, frames => by
    simp only [resolveRoutine, inScope_run, Step.bind_run, Step.pure_run, Stmt.bareRoutine,
      bare_resolveStmts body]

theorem bare_resolveMethods : ∀ (ms : List (Routine (Stmt Unit))) (around : Surroundings)
    (frames : List Frame), Stmt.bareMethods (resolveMethods around ms frames).value = ms
  | [], _, _ => rfl
  | m :: rest, around, frames => by
    simp only [resolveMethods, Step.bind_run, Step.pure_run, Stmt.bareMethods,
      bare_resolveRoutine m, bare_resolveMethods rest]

end

/-! ## Programs -/

theorem Ahead.start (p : Position) : Ahead {} p ([] : List (Site α)) where
  idle := rfl
  outside := fun _ hscope => absurd hscope List.not_mem_nil
  fresh := fun _ hsite => absurd hsite List.not_mem_nil

theorem Tracks.start : Tracks {} ([] : List (Site α)) [] where
  nodup := List.nodup_nil
  declared := .nil
  making := fun _ _ _ hframe => by simp at hframe

/-- Resolving a program accounts for its sites. -/
theorem resolve_accounts (p : Program Unit) :
    Accounts {} [] (resolve p).value.sites (resolve p).frames (resolve p).issues :=
  resolveStmts_accounts p {} [] 0 [] [] (fun j _ => .start [j]) .start

theorem sites_resolve_bare (p : Program Unit) :
    (resolve p).value.sites.map Site.bare = p.sites := by
  have hbare := Stmt.sitesAll_bare (resolve p).value {} [] 0
  rw [show Stmt.bareAll (resolve p).value = p from bare_resolveStmts p {} []] at hbare
  exact hbare.symm

theorem findIdx?_eq_some_iff_distance {earlier : List (Site α)} {here : Setting} {x : Text}
    {d : Nat} : here.scopes.findIdx? (fun scope => declaredIn earlier scope x) = some d ↔
      Distance earlier here x d := by
  rw [List.findIdx?_eq_some_iff_getElem]
  constructor
  · rintro ⟨hd, hdeclared, hinner⟩
    refine ⟨⟨_, List.getElem?_eq_getElem hd, hdeclared⟩, fun i hi scope hscope => ?_⟩
    obtain ⟨hlt, rfl⟩ := List.getElem?_eq_some_iff.1 hscope
    simpa using hinner i hi
  · rintro ⟨⟨scope, hscope, hdeclared⟩, hinner⟩
    obtain ⟨hlt, rfl⟩ := List.getElem?_eq_some_iff.1 hscope
    refine ⟨hlt, hdeclared, fun i hi => ?_⟩
    simpa using hinner i hi _ (List.getElem?_eq_getElem (Nat.lt_trans hi hlt))

theorem findIdx?_eq_none_iff_global {earlier : List (Site α)} {here : Setting} {x : Text} :
    here.scopes.findIdx? (fun scope => declaredIn earlier scope x) = none ↔
      Global earlier here x := by
  simp only [List.findIdx?_eq_none_iff, Global]

/-- **Addresses are lexical distances.** Resolution changes nothing in a
program but the addresses of variables that are read or assigned to and of
`this`, and these are all sites. A variable has the address `d` exactly if
the scope `d` scopes out is the innermost one that an earlier site declares
its name in, and none exactly if no scope around has it declared so far. The
same goes for `this` in a class; outside all classes it has none. -/
theorem address_iff_distance (p : Program Unit) :
    let resolved := (resolve p).value
    Stmt.bareAll resolved = p ∧
    (resolved.sites.filterMap Site.use?).Perm resolved.uses ∧
    ∀ earlier site later, resolved.sites = earlier ++ site :: later →
      (∀ name address,
        site.occurrence = .read name address ∨ site.occurrence = .write name address →
        (∀ d, address = some d ↔ Distance earlier site.setting name.lexeme d) ∧
        (address = none ↔ Global earlier site.setting name.lexeme)) ∧
      ∀ keyword address, site.occurrence = .receiver keyword address →
        (∀ d, address = some d ↔
          site.setting.inClass = true ∧ Distance earlier site.setting keyword.lexeme d) ∧
        (address = none ↔
          site.setting.inClass = false ∨ Global earlier site.setting keyword.lexeme) := by
  intro resolved
  refine ⟨bare_resolveStmts p {} [], Program.uses_perm resolved, ?_⟩
  intro earlier site later hsplit
  have haddressed : site.Addressed earlier := by
    have hall := (resolve_accounts p).addressed
    rw [show (resolve p).value.sites = earlier ++ site :: later from hsplit,
      addressedAfter_append] at hall
    exact hall.2.1
  refine ⟨fun name address hoccurrence => ?_, fun keyword address hoccurrence => ?_⟩
  · have haddress : address = site.setting.scopes.findIdx? fun scope =>
        declaredIn earlier scope name.lexeme := by
      rcases hoccurrence with hoccurrence | hoccurrence <;>
        simpa only [Site.Addressed, hoccurrence] using haddressed
    rw [haddress]
    exact ⟨fun _ => findIdx?_eq_some_iff_distance, findIdx?_eq_none_iff_global⟩
  · simp only [Site.Addressed, hoccurrence] at haddressed
    rw [haddressed]
    cases site.setting.inClass with
    | true =>
      simp only [if_true, true_and, Bool.true_eq_false, false_or]
      exact ⟨fun _ => findIdx?_eq_some_iff_distance, findIdx?_eq_none_iff_global⟩
    | false => simp

/-- **The issues are the scope violations**, each at its site and in the order
of resolution, whatever else is wrong with the program. Afterwards there is
no scope left and nothing around: what follows is resolved as if it stood
alone. -/
theorem issues_eq_violations (p : Program Unit) :
    (resolve p).issues = violations p ∧
    (resolve p).frames = [] ∧
    ∀ more : Program Unit, resolve (p ++ more) =
      ⟨(resolve p).value ++ (resolve more).value, [],
        (resolve p).issues ++ (resolve more).issues⟩ := by
  have hframes : ∀ q : Program Unit, (resolve q).frames = [] := fun q =>
    List.forall₂_nil_left_iff.1 (resolve_accounts q).tracks.declared
  refine ⟨?_, hframes p, fun more => ?_⟩
  · rw [(resolve_accounts p).issues, violations, ← sites_resolve_bare]
    exact (violationsAfter_bare [] _).symm
  · have hboth := resolveStmts_append {} p more []
    rw [show (resolveStmts {} p []).frames = [] from hframes p,
      show (resolveStmts {} more []).frames = [] from hframes more] at hboth
    exact hboth

end Scoping

end TanLang
