import TanLang.Proofs.Heap.Ancestry
import TanLang.Proofs.Heap.Receivers
/-!
# The heap — what instances have under a name

An instance has the fields set on it and, for the other names, the methods of
its class. A course is whatever happens to a heap, with a log of the settings
on the way, the first one first. **A property is the last value set under its
name on that very instance, and else the nearest method**; nothing that
happens to other instances, under other names, or to scopes, functions and new
classes makes a difference to it.
-/

namespace TanLang

/-- A field set on an instance. -/
structure Setting where
  /-- The instance. -/
  target : InstanceId
  /-- The name of the field. -/
  name : Text
  /-- The value it is given. -/
  value : Value

/-- A setting is of a field of an instance. -/
def Setting.Of (e : Setting) (i : InstanceId) (x : Text) : Prop := e.target = i ∧ e.name = x

/-- No setting in a log is of a field. -/
def Untouched (log : List Setting) (i : InstanceId) (x : Text) : Prop := ∀ e ∈ log, ¬ e.Of i x

/-- **The last setting of a field in a log** gives it this value. -/
def LastSet (log : List Setting) (i : InstanceId) (x : Text) (v : Value) : Prop :=
  ∃ before after, log = before ++ ⟨i, x, v⟩ :: after ∧ Untouched after i x

section

variable {log more : List Setting} {i : InstanceId} {x : Text} {v : Value}

theorem Untouched.append (hlog : Untouched log i x) (hmore : Untouched more i x) :
    Untouched (log ++ more) i x :=
  fun e he => (List.mem_append.1 he).elim (hlog e) (hmore e)

theorem Untouched.of_append (h : Untouched (log ++ more) i x) :
    Untouched log i x ∧ Untouched more i x :=
  ⟨fun e he => h e (List.mem_append_left more he), fun e he => h e (List.mem_append_right log he)⟩

theorem LastSet.append (hlog : LastSet log i x v) (hmore : Untouched more i x) :
    LastSet (log ++ more) i x v := by
  obtain ⟨before, after, rfl, hafter⟩ := hlog
  exact ⟨before, after ++ more, by simp, hafter.append hmore⟩

/-- A field was set last by the last setting of a log, or before it. -/
theorem lastSet_concat_iff {e : Setting} : LastSet (log ++ [e]) i x v ↔
    e.Of i x ∧ e.value = v ∨ ¬ e.Of i x ∧ LastSet log i x v := by
  constructor
  · rintro ⟨before, after, hlog, hafter⟩
    rcases List.eq_nil_or_concat after with rfl | ⟨after, e', rfl⟩
    · obtain ⟨rfl, heq⟩ := List.append_inj' hlog rfl
      cases heq
      exact .inl ⟨⟨rfl, rfl⟩, rfl⟩
    · rw [List.concat_eq_append] at hlog hafter
      rw [← List.cons_append, ← List.append_assoc] at hlog
      obtain ⟨rfl, heq⟩ := List.append_inj' hlog rfl
      cases heq
      obtain ⟨hinner, hlast⟩ := hafter.of_append
      exact .inr ⟨hlast e (List.mem_singleton_self e), before, after, rfl, hinner⟩
  · rintro (⟨⟨rfl, rfl⟩, rfl⟩ | ⟨hnot, hlog⟩)
    · exact ⟨log, [], rfl, nofun⟩
    · refine hlog.append fun e' he' => ?_
      rwa [List.mem_singleton.1 he']

end

namespace Heap

variable {h h' h'' k : Heap} {log more : List Setting} {i j : InstanceId} {x y : Text} {v : Value}
variable {c : ClassId} {f : Function}

/-! ## Courses -/

/-- **What happens to a heap**, with the settings on the way, the first one
first: instances are made, fields are set, properties are fetched, and
otherwise instances and the classes there are stay as they are. -/
inductive Course (h : Heap) : List Setting → Heap → Prop where
  | start : Course h [] h
  | instantiate {log : List Setting} {k : Heap} (before : Course h log k) (c : ClassId) :
      Course h log (k.newInstance c).1
  | set {log : List Setting} {k : Heap} {i : InstanceId} (before : Course h log k)
      (hi : (k.instance? i).isSome = true) (x : Text) (v : Value) :
      Course h (log ++ [⟨i, x, v⟩]) (k.setField i x v)
  | get {log : List Setting} {k : Heap} {i : InstanceId} {x : Text} {p : Property}
      (before : Course h log k) (hp : k.property? i x = some p) : Course h log (k.fetch i p).1
  | aside {log : List Setting} {k k' : Heap} (before : Course h log k)
      (hinstances : k'.instances = k.instances) (hclasses : k.ClassesLast k') : Course h log k'

/-- A property that is fetched leaves instances and classes alone. -/
theorem fetch_aside (p : Property) :
    (k.fetch i p).1.instances = k.instances ∧ (k.fetch i p).1.classes = k.classes := by
  cases p <;> exact ⟨rfl, rfl⟩

namespace Course

theorem trans (first : Course h log h') (second : Course h' more h'') :
    Course h (log ++ more) h'' := by
  induction second with
  | start => rwa [List.append_nil]
  | instantiate _ c ih => exact ih.instantiate c
  | set _ hi x v ih =>
    rw [← List.append_assoc]
    exact ih.set hi x v
  | get _ hp ih => exact ih.get hp
  | aside _ hinstances hclasses ih => exact ih.aside hinstances hclasses

/-- **No course changes a class.** -/
theorem classesLast (hh : Course h log h') : h.ClassesLast h' := by
  induction hh with
  | start => exact .refl h
  | instantiate _ c ih => exact ih.trans (.of_eq rfl)
  | set _ hi x v ih => exact ih.trans (.of_eq rfl)
  | get _ hp ih => exact ih.trans (.of_eq (fetch_aside _).2)
  | aside _ _ hclasses ih => exact ih.trans hclasses

end Course

/-! ## Fields -/

/-- The value of a field of an instance. -/
def field? (h : Heap) (i : InstanceId) (x : Text) : Option Value :=
  (h.instance? i).bind fun inst => inst.fields.find? x

theorem instance?_newInstance (c : ClassId) (j : InstanceId) :
    (h.newInstance c).1.instance? j =
      if j = (h.newInstance c).2 then some ⟨c, .empty⟩ else h.instance? j := by
  obtain ⟨j⟩ := j
  simp only [instance?, newInstance, Array.getElem?_push, InstanceId.mk.injEq]

theorem instance?_setField (i j : InstanceId) (x : Text) (v : Value) :
    (h.setField i x v).instance? j =
      if j = i then (h.instance? i).map fun inst => { inst with fields := inst.fields.insert x v }
      else h.instance? j := by
  obtain ⟨i⟩ := i
  obtain ⟨j⟩ := j
  simp only [instance?, setField, Array.getElem?_modify, InstanceId.mk.injEq]
  by_cases hij : j = i
  · rw [if_pos hij, if_pos hij.symm, hij]
  · rw [if_neg hij, if_neg (Ne.symm hij)]

/-- A new instance has no fields, and the others have those they had. -/
theorem field?_newInstance (c : ClassId) : (h.newInstance c).1.field? j x = h.field? j x := by
  rw [field?, field?, instance?_newInstance]
  split
  · rename_i hnew
    have hnone : h.instance? j = none := by
      rw [hnew]
      exact Array.getElem?_eq_none (Nat.le_refl _)
    rw [hnone]
    rfl
  · rfl

/-- **A setting gives its field the value**, -/
theorem field?_setField_self (hi : (h.instance? i).isSome = true) :
    (h.setField i x v).field? i x = some v := by
  obtain ⟨inst, hinst⟩ := Option.isSome_iff_exists.1 hi
  rw [field?, instance?_setField, if_pos rfl, hinst]
  exact Table.find?_insert_self _ _ _

/-- and leaves all others alone. -/
theorem field?_setField_of_ne (hne : ¬ (i = j ∧ x = y)) :
    (h.setField i x v).field? j y = h.field? j y := by
  rw [field?, field?, instance?_setField]
  split
  · rename_i hji
    subst hji
    have hy : y ≠ x := fun hyx => hne ⟨rfl, hyx.symm⟩
    cases h.instance? j with
    | none => rfl
    | some inst => exact Table.find?_insert_of_ne _ _ hy
  · rfl

theorem field?_congr (heq : h'.instances = h.instances) : h'.field? i x = h.field? i x := by
  rw [field?, field?, instance?, instance?, heq]

namespace Course

/-- **A field has the value it was given last.** -/
theorem field?_of_lastSet (hh : Course h log h') (hlast : LastSet log i x v) :
    h'.field? i x = some v := by
  induction hh with
  | start =>
    obtain ⟨before, after, hnil, -⟩ := hlast
    cases before <;> cases hnil
  | instantiate _ c ih => rw [field?_newInstance, ih hlast]
  | @set log k j _ hj y w ih =>
    rcases lastSet_concat_iff.1 hlast with ⟨⟨rfl, rfl⟩, rfl⟩ | ⟨hnot, hbefore⟩
    · exact field?_setField_self hj
    · rw [field?_setField_of_ne hnot, ih hbefore]
  | get _ hp ih => rw [field?_congr (fetch_aside _).1, ih hlast]
  | aside _ hinstances _ ih => rw [field?_congr hinstances, ih hlast]

/-- **A field that is not set is what it was.** -/
theorem field?_of_untouched (hh : Course h log h') (hlog : Untouched log i x) :
    h'.field? i x = h.field? i x := by
  induction hh with
  | start => rfl
  | instantiate _ c ih => rw [field?_newInstance, ih hlog]
  | set _ hi y w ih =>
    obtain ⟨hbefore, hthis⟩ := hlog.of_append
    rw [field?_setField_of_ne (hthis _ (List.mem_singleton_self _)), ih hbefore]
  | get _ hp ih => rw [field?_congr (fetch_aside _).1, ih hlog]
  | aside _ hinstances _ ih => rw [field?_congr hinstances, ih hlog]

/-- An instance stays of its class. -/
theorem classOf (hh : Course h log h') {inst : Instance} (hi : h.instance? i = some inst) :
    ∃ inst', h'.instance? i = some inst' ∧ inst'.classOf = inst.classOf := by
  induction hh with
  | start => exact ⟨inst, hi, rfl⟩
  | @instantiate log k _ c ih =>
    obtain ⟨inst', hinst', hclass⟩ := ih
    refine ⟨inst', ?_, hclass⟩
    rw [instance?_newInstance, if_neg ?_, hinst']
    rintro rfl
    rw [show k.instance? (k.newInstance c).2 = none from
      Array.getElem?_eq_none (Nat.le_refl _)] at hinst'
    cases hinst'
  | @set log k j _ hj x v ih =>
    obtain ⟨inst', hinst', hclass⟩ := ih
    rw [instance?_setField]
    split
    · rename_i hij
      subst hij
      rw [hinst']
      exact ⟨_, rfl, hclass⟩
    · exact ⟨inst', hinst', hclass⟩
  | get _ hp ih =>
    obtain ⟨inst', hinst', hclass⟩ := ih
    exact ⟨inst', by rw [instance?, (fetch_aside _).1]; exact hinst', hclass⟩
  | aside _ hinstances _ ih =>
    obtain ⟨inst', hinst', hclass⟩ := ih
    exact ⟨inst', by rw [instance?, hinstances]; exact hinst', hclass⟩

end Course

/-! ## Properties -/

/-- A property is a field, or else a method of the class. -/
theorem property?_eq {inst : Instance} (hi : h.instance? i = some inst) :
    h.property? i x =
      match h.field? i x with
      | some v => some (.field v)
      | none => (h.method? inst.classOf x).map .method := by
  have hfield : h.field? i x = inst.fields.find? x := by rw [field?, hi, Option.bind_some]
  cases hfind : inst.fields.find? x with
  | none => simp only [property?, hi, hfield, hfind]
  | some v => simp only [property?, hi, hfield, hfind]

end Heap

end TanLang
