import MlibDevel.Verilog.Immutable

/-!
# Calls on ports, parameters and signals (`verilog.py`)

The constructors and `update_attrs` assign the attributes of an object one after the other.  A call
is to raise if it changes a value, and only then.  Comments are to be collected, with ` | ` between
them.

A second comment raises instead, a `TypeError` of the arguments of `object.__setattr__`.
`Parameter` assigns a comment twice, so a parameter with a comment cannot be made
(`parameter_comment_raises`).

Main result: `calls_honoured` (as long as no comment is assigned over another, all calls do what
they are to).
-/

namespace MlibDevel.Verilog

/-! ## The calls -/

/-- An attribute with the value that is assigned to it -/
abbrev Assignment := String × PyVal

/-- Keyword arguments.  No two have one name, and the named arguments are not among them. -/
structure Kwargs (named : List String) where
  items : List Assignment
  nodup : (items.map Prod.fst).Nodup
  other : ∀ kw ∈ items.map Prod.fst, kw ∉ named

/-- No keyword arguments -/
def Kwargs.empty (named : List String) : Kwargs named := ⟨[], List.nodup_nil, by simp⟩

/-- What counts as true -/
def PyVal.truthy : PyVal → Bool
  | .none => false
  | .bool b => b
  | .int n => n ≠ 0
  | .str s => s ≠ ""

/--
A call on an object with its arguments.  The constructors call `update_attrs`, which is all they do;
the one of `Signal` does not hand on its `signal`.
-/
inductive Call
  | port (name : String) (signal : PyVal := .none) (parentPort : PyVal := .bool false)
      (parentSig : PyVal := .bool true) (width : PyVal := .int 0)
      (kwargs : Kwargs ["name", "signal", "parent_port", "parent_sig", "width"] := Kwargs.empty _)
  | parameter (name : String) (value : PyVal) (comment : PyVal := .none)
  | signal (name : String) (width : PyVal := .int 0)
      (kwargs : Kwargs ["name", "width"] := Kwargs.empty _)
  | attr (x : String) (y : PyVal)

/-- The assignments of a call, in order -/
def Call.assignments : Call → List Assignment
  | .port name sig parentPort parentSig width kwargs =>
    [("name", .str (rstrip name)),
      ("parent_sig", if parentSig.truthy then .bool (!parentPort.truthy) else parentSig),
      ("parent_port", parentPort), ("width", width), ("signal", sig)] ++ kwargs.items
  | .parameter name value comment =>
    [("name", .str (rstrip name)), ("value", value)] ++
      (match comment with
        | .str c => [("comment", .str (rstrip c))]
        | _ => []) ++ [("comment", comment)]
  | .signal name width kwargs => [("name", .str (rstrip name)), ("width", width)] ++ kwargs.items
  | .attr x y => [(x, y)]

/-- Assignments are made until one raises. -/
def assignAll (a : Attrs) : List Assignment → Attrs × Option PyError
  | [] => (a, none)
  | (x, y) :: rest =>
    match setattr a x y with
    | .ok a => assignAll a rest
    | .error e => (a, some e)

/-- What an object holds after a call, and what was raised. -/
def Call.run (c : Call) (a : Attrs) : Attrs × Option PyError := assignAll a c.assignments

/-- What a call returns, if it does. -/
def returned : Attrs × Option PyError → Except PyError Attrs
  | (a, none) => .ok a
  | (_, some e) => .error e

@[simp] theorem returned_nil (a : Attrs) : returned (assignAll a []) = pure a := rfl

@[simp] theorem returned_cons (a : Attrs) (x : String) (y : PyVal) (rest : List Assignment) :
    returned (assignAll a ((x, y) :: rest)) = setattr a x y >>= fun a =>
      returned (assignAll a rest) := by
  rw [assignAll]
  cases setattr a x y with
  | ok a => rfl
  | error e => rfl

/-- `updateParameter` makes these assignments. -/
theorem updateParameter_eq (a : Attrs) (name : String) (value comment : PyVal) :
    updateParameter a name value comment =
      returned ((Call.parameter name value comment).run a) := by
  cases comment <;> simp [updateParameter, Call.run, Call.assignments]

/-- `updatePort` makes these assignments. -/
theorem updatePort_eq (a : Attrs) (name : String) (signal : PyVal) (parentPort parentSig : Bool)
    (width : Int) :
    updatePort a name signal parentPort parentSig width =
      returned
        ((Call.port name signal (.bool parentPort) (.bool parentSig) (.int width)).run a) := by
  cases parentSig <;> simp [updatePort, Call.run, Call.assignments, PyVal.truthy, Kwargs.empty]

/-! ## A single assignment -/

/-- The value of an attribute; one that is not there counts as `None`. -/
def held (a : Attrs) (x : String) : PyVal := (a.lookup x).getD .none

/-- The assignment would change the value of an attribute. -/
def conflicts (a : Attrs) (p : Assignment) : Bool :=
  p.1 ≠ "comment" && held a p.1 ≠ .none && !(held a p.1).pyEq p.2

theorem conflicts_iff {a : Attrs} {p : Assignment} :
    conflicts a p = true ↔ p.1 ≠ "comment" ∧ held a p.1 ≠ .none ∧
      (held a p.1).pyEq p.2 = false := by
  simp [conflicts, and_assoc]

theorem setattr_eq (a : Attrs) (x : String) (y : PyVal) :
    setattr a x y = if held a x = .none then .ok (a.insert x y)
      else if x = "comment" then .error .typeError
      else if (held a x).pyEq y then .ok a
      else .error (.immutable x (Attrs.name a) (held a x) y) := by
  unfold setattr held
  split
  · next h => simp [h]
  · next h => simp [h]
  · next old hne h =>
    have hold : old ≠ .none := fun heq => hne heq
    simp [h, hold]

theorem held_insert (a : Attrs) (x z : String) (y : PyVal) :
    held (a.insert x y) z = if z = x then y else held a z := by
  unfold held
  split
  · next h => rw [h, AList.lookup_insert, Option.getD_some]
  · next h => rw [AList.lookup_insert_ne h]

/-- What does not change a value raises nothing, unless it is a second comment. -/
theorem setattr_of_not_conflicts {a : Attrs} {x : String} {y : PyVal}
    (hp : conflicts a (x, y) = false) (hcomment : x = "comment" → held a x = .none) :
    ∃ a', setattr a x y = .ok a' ∧ (∀ z, z ≠ x → held a' z = held a z) ∧
      held a' x = if held a x = .none then y else held a x := by
  rw [setattr_eq]
  by_cases hheld : held a x = .none
  · rw [if_pos hheld, if_pos hheld]
    refine ⟨_, rfl, fun z hz => ?_, ?_⟩
    · rw [held_insert, if_neg hz]
    · rw [held_insert, if_pos rfl]
  · have hx : x ≠ "comment" := fun h => hheld (hcomment h)
    have heq : (held a x).pyEq y = true := by simpa [conflicts, hx, hheld] using hp
    rw [if_neg hheld, if_neg hx, if_pos heq, if_neg hheld]
    exact ⟨a, rfl, fun _ _ => rfl, rfl⟩

theorem setattr_of_conflicts {a : Attrs} {x : String} {y : PyVal} (hp : conflicts a (x, y) = true) :
    ∃ e, setattr a x y = .error e := by
  obtain ⟨hx, hheld, hne⟩ := conflicts_iff.mp hp
  rw [setattr_eq, if_neg hheld, if_neg hx, if_neg (by simp [hne])]
  exact ⟨_, rfl⟩

/-! ## Values that are equal -/

theorem PyVal.pyEq_iff (x y : PyVal) :
    x.pyEq y = true ↔ x = y ∨ ∃ n, x.toInt? = some n ∧ y.toInt? = some n := by
  unfold PyVal.pyEq
  cases hx : x.toInt? <;> cases hy : y.toInt?
  · simp
  · simp
  · simp
  · next m n =>
    have hsame : x = y → m = n := fun h => by
      rw [h, hy] at hx
      exact (Option.some.inj hx).symm
    simp only [decide_eq_true_eq, Option.some.injEq, exists_eq_left']
    exact ⟨fun h => .inr h.symm, fun h => h.elim hsame Eq.symm⟩

theorem PyVal.pyEq_trans {x y z : PyVal} (hxy : x.pyEq y = true) (hyz : y.pyEq z = true) :
    x.pyEq z = true := by
  rw [PyVal.pyEq_iff] at *
  rcases hxy with rfl | ⟨m, hx, hy⟩
  · exact hyz
  · rcases hyz with rfl | ⟨n, hy', hz⟩
    · exact .inr ⟨m, hx, hy⟩
    · rw [hy] at hy'
      exact .inr ⟨m, hx, by rw [hz, ← hy']⟩

theorem PyVal.pyEq_none {y : PyVal} (h : PyVal.pyEq .none y = true) : y = .none := by
  rcases (PyVal.pyEq_iff _ _).mp h with rfl | ⟨n, hn, -⟩
  · rfl
  · nomatch hn

/-! ## The assignments of a call -/

/-- No attribute is assigned twice, apart from the comment. -/
def Distinct (l : List Assignment) : Prop := ((l.map Prod.fst).filter (· ≠ "comment")).Nodup

theorem Distinct.not_mem {x : String} {y : PyVal} {rest : List Assignment}
    (h : Distinct ((x, y) :: rest)) (hx : x ≠ "comment") : x ∉ rest.map Prod.fst := by
  rw [Distinct, List.map_cons, List.filter_cons_of_pos (by simpa using hx)] at h
  exact fun hmem => (List.nodup_cons.mp h).1 (List.mem_filter.mpr ⟨hmem, by simpa using hx⟩)

theorem Distinct.tail {p : Assignment} {rest : List Assignment} (h : Distinct (p :: rest)) :
    Distinct rest :=
  List.Nodup.sublist ((List.sublist_cons_self _ _).filter _) h

theorem distinct_append {named : List String} {l : List Assignment} (hl : (l.map Prod.fst).Nodup)
    (hnamed : ∀ x ∈ l.map Prod.fst, x ∈ named) (kwargs : Kwargs named) :
    Distinct (l ++ kwargs.items) := by
  unfold Distinct
  rw [List.map_append]
  refine (List.nodup_append'.mpr ⟨hl, kwargs.nodup, fun x hx hkw => ?_⟩).filter _
  exact kwargs.other x hkw (hnamed x hx)

theorem Call.distinct (c : Call) : Distinct c.assignments := by
  cases c with
  | port name sig parentPort parentSig width kwargs =>
    exact distinct_append (by simp) (by simp) kwargs
  | parameter name value comment => cases comment <;> simp [Distinct, Call.assignments]
  | signal name width kwargs => exact distinct_append (by simp) (by simp) kwargs
  | attr x y => exact (List.nodup_singleton x).filter _

/-- No comment is assigned over another, unless the call raises before. -/
def OneComment (a : Attrs) (l : List Assignment) : Prop :=
  ∀ before y after, l = before ++ ("comment", y) :: after →
    (∃ p ∈ before, conflicts a p = true) ∨
      held a "comment" = .none ∧ ∀ p ∈ before, p.1 = "comment" → p.2 = .none

/-- `a'` is what `a` becomes by an assignment. -/
structure Assigned (a : Attrs) (x : String) (y : PyVal) (a' : Attrs) : Prop where
  other : ∀ z, z ≠ x → held a' z = held a z
  self : held a' x = if held a x = .none then y else held a x

section

variable {a a' : Attrs} {x : String} {y : PyVal} {rest l : List Assignment}

/-- The other assignments are not affected. -/
theorem Assigned.conflicts_eq (h : Assigned a x y a') (hdistinct : Distinct ((x, y) :: rest)) :
    ∀ p ∈ rest, conflicts a' p = conflicts a p := by
  intro p hp
  by_cases hcomment : p.1 = "comment"
  · simp [conflicts, hcomment]
  · have hne : p.1 ≠ x := by
      rintro rfl
      exact hdistinct.not_mem hcomment (List.mem_map_of_mem hp)
    rw [conflicts, conflicts, h.other p.1 hne]

theorem OneComment.head (hone : OneComment a (("comment", y) :: rest)) :
    held a "comment" = .none := by
  rcases hone [] y rest rfl with ⟨p, hin, -⟩ | ⟨hnone, -⟩
  · nomatch hin
  · exact hnone

theorem OneComment.tail (hone : OneComment a ((x, y) :: rest)) (hp : conflicts a (x, y) = false)
    (h : Assigned a x y a') (hdistinct : Distinct ((x, y) :: rest)) : OneComment a' rest := by
  intro before y' after heq
  have hsame := h.conflicts_eq hdistinct
  have hcons : (x, y) :: rest = ((x, y) :: before) ++ ("comment", y') :: after := by
    rw [heq, List.cons_append]
  rcases hone ((x, y) :: before) y' after hcons with ⟨p, hin, hc⟩ | ⟨hnone, hbefore⟩
  · rcases List.mem_cons.mp hin with rfl | hin
    · rw [hp] at hc
      nomatch hc
    · have hrest : p ∈ rest := by
        rw [heq]
        exact List.mem_append_left _ hin
      exact .inl ⟨p, hin, (hsame p hrest).trans hc⟩
  · refine .inr ⟨?_, fun p hin => hbefore p (List.mem_cons_of_mem _ hin)⟩
    by_cases hx : "comment" = x
    · subst hx
      rw [h.self, if_pos hnone]
      exact hbefore _ List.mem_cons_self rfl
    · rw [h.other _ hx, hnone]

theorem OneComment.cons (hone : OneComment a' rest) (hcomment : x = "comment" → held a x = .none)
    (h : Assigned a x y a') (hdistinct : Distinct ((x, y) :: rest)) :
    OneComment a ((x, y) :: rest) := by
  intro before y' after heq
  cases before with
  | nil =>
    have hx : x = "comment" := congrArg Prod.fst (List.cons.inj heq).1
    exact .inr ⟨hx ▸ hcomment hx, fun p hp => absurd hp List.not_mem_nil⟩
  | cons p before =>
    obtain ⟨rfl, hrest⟩ := List.cons.inj heq
    have hsame := h.conflicts_eq hdistinct
    rcases hone before y' after hrest with ⟨q, hin, hc⟩ | ⟨hnone, hbefore⟩
    · have hq : q ∈ rest := by
        rw [hrest]
        exact List.mem_append_left _ hin
      exact .inl ⟨q, List.mem_cons_of_mem _ hin, (hsame q hq).symm.trans hc⟩
    · by_cases hx : "comment" = x
      · have hheld := h.self
        rw [← hx, hnone, if_pos (hx ▸ hcomment hx.symm)] at hheld
        refine .inr ⟨hx ▸ hcomment hx.symm, fun q hq hcomm => ?_⟩
        rcases List.mem_cons.mp hq with rfl | hin
        · exact hheld.symm
        · exact hbefore q hin hcomm
      · refine .inr ⟨(h.other _ hx).symm.trans hnone, fun q hq hcomm => ?_⟩
        rcases List.mem_cons.mp hq with rfl | hin
        · exact absurd hcomm.symm hx
        · exact hbefore q hin hcomm

/-- A comment over another raises a `TypeError`. -/
theorem assignAll_typeError (hone : ¬OneComment a l) (hdistinct : Distinct l) :
    (assignAll a l).2 = some .typeError := by
  induction l generalizing a with
  | nil => exact absurd (fun before y after heq => absurd heq (by simp)) hone
  | cons p rest ih =>
    obtain ⟨x, y⟩ := p
    rw [assignAll]
    by_cases hcomment : x = "comment" → held a x = .none
    · cases hp : conflicts a (x, y) with
      | true =>
        refine absurd (fun before y' after heq => ?_) hone
        cases before with
        | nil =>
          rw [(List.cons.inj heq).1] at hp
          simp [conflicts] at hp
        | cons p before =>
          exact .inl ⟨(x, y), by rw [(List.cons.inj heq).1]; exact List.mem_cons_self, hp⟩
      | false =>
        obtain ⟨a', hok, hother, hself⟩ := setattr_of_not_conflicts hp hcomment
        rw [hok]
        exact ih (fun h => hone (h.cons hcomment ⟨hother, hself⟩ hdistinct)) hdistinct.tail
    · obtain ⟨hx, hheld⟩ := Classical.not_imp.mp hcomment
      rw [setattr_eq, if_neg hheld, if_pos hx]

/-- **An assignment raises and the call ends, or the value is what it is to be and the call goes
on.** -/
theorem assignAll_cons (hone : OneComment a ((x, y) :: rest))
    (hdistinct : Distinct ((x, y) :: rest)) :
    (conflicts a (x, y) = true ∧ ∃ e, assignAll a ((x, y) :: rest) = (a, some e)) ∨
      (conflicts a (x, y) = false ∧ ∃ a',
        assignAll a ((x, y) :: rest) = assignAll a' rest ∧ Assigned a x y a' ∧
        OneComment a' rest) := by
  rw [assignAll]
  cases hp : conflicts a (x, y) with
  | true =>
    obtain ⟨e, he⟩ := setattr_of_conflicts hp
    rw [he]
    exact .inl ⟨rfl, e, rfl⟩
  | false =>
    have hcomment : x = "comment" → held a x = .none := by
      rintro rfl
      exact hone.head
    obtain ⟨a', hok, hother, hself⟩ := setattr_of_not_conflicts hp hcomment
    have hassigned : Assigned a x y a' := ⟨hother, hself⟩
    rw [hok]
    exact .inr ⟨rfl, a', rfl, hassigned, hone.tail hp hassigned hdistinct⟩

end

/-! ## What a call does -/

/-- What is held in `a` is held in `a'`. -/
def Attrs.Le (a a' : Attrs) : Prop := ∀ x, held a x ≠ .none → held a' x = held a x

theorem Attrs.Le.trans {a b c : Attrs} (hab : a.Le b) (hbc : b.Le c) : a.Le c := by
  intro x hx
  have hb := hab x hx
  rw [hbc x (by rwa [hb]), hb]

/-- Whatever is assigned, no value is lost. -/
theorem assignAll_le (a : Attrs) (l : List Assignment) : a.Le (assignAll a l).1 := by
  induction l generalizing a with
  | nil => exact fun _ _ => rfl
  | cons p rest ih =>
    obtain ⟨x, y⟩ := p
    rw [assignAll, setattr_eq]
    split
    · next a' hok =>
      refine Attrs.Le.trans ?_ (ih a')
      split at hok
      · next hnone =>
        intro z hz
        rw [← Except.ok.inj hok, held_insert, if_neg]
        rintro rfl
        exact hz hnone
      · split at hok
        · nomatch hok
        · split at hok
          · rw [← Except.ok.inj hok]
            exact fun _ _ => rfl
          · nomatch hok
    · exact fun _ _ => rfl

/-- A call raises if it would change a value. -/
theorem assignAll_raises_iff {a : Attrs} {l : List Assignment} (hone : OneComment a l)
    (hdistinct : Distinct l) : (assignAll a l).2.isSome ↔ ∃ p ∈ l, conflicts a p = true := by
  induction l generalizing a with
  | nil => simp [assignAll]
  | cons p rest ih =>
    obtain ⟨x, y⟩ := p
    rcases assignAll_cons hone hdistinct with ⟨hp, e, he⟩ | ⟨hp, a', heq, hassigned, hone'⟩
    · rw [he]
      exact iff_of_true rfl ⟨(x, y), List.mem_cons_self, hp⟩
    · rw [heq, ih hone' hdistinct.tail, List.exists_mem_cons_iff, hp]
      have hsame := hassigned.conflicts_eq hdistinct
      simp only [Bool.false_eq_true, false_or]
      exact exists_congr fun p => and_congr_right fun hin => by rw [hsame p hin]

/-- What is not assigned stays as it is. -/
theorem assignAll_other {a : Attrs} {l : List Assignment} {z : String} (hone : OneComment a l)
    (hdistinct : Distinct l) (hz : z ∉ l.map Prod.fst) : held (assignAll a l).1 z = held a z := by
  induction l generalizing a with
  | nil => rfl
  | cons p rest ih =>
    obtain ⟨x, y⟩ := p
    rw [List.map_cons, List.mem_cons, not_or] at hz
    rcases assignAll_cons hone hdistinct with ⟨-, e, he⟩ | ⟨-, a', heq, hassigned, hone'⟩
    · rw [he]
    · rw [heq, ih hone' hdistinct.tail hz.2, hassigned.other z hz.1]

/-- A call that returns leaves the values it was given, or equal ones. -/
theorem assignAll_returned {a : Attrs} {l : List Assignment} (hone : OneComment a l)
    (hdistinct : Distinct l) (hreturned : (assignAll a l).2 = none) :
    ∀ p ∈ l, p.1 ≠ "comment" → (held (assignAll a l).1 p.1).pyEq p.2 = true := by
  induction l generalizing a with
  | nil => exact fun p hp => absurd hp List.not_mem_nil
  | cons p rest ih =>
    obtain ⟨x, y⟩ := p
    rcases assignAll_cons hone hdistinct with ⟨-, e, he⟩ | ⟨hp, a', heq, hassigned, hone'⟩
    · rw [he] at hreturned
      nomatch hreturned
    · rw [heq] at hreturned ⊢
      rintro q hq hcomment
      rcases List.mem_cons.mp hq with rfl | hrest
      · rw [assignAll_other hone' hdistinct.tail (hdistinct.not_mem hcomment), hassigned.self]
        split
        · exact (PyVal.pyEq_iff _ _).mpr (.inl rfl)
        · next hheld => simpa [conflicts, hcomment, hheld] using hp
      · exact ih hone' hdistinct.tail hreturned q hrest hcomment

/-- The same attributes are assigned equal values. -/
def Call.Same (c c' : Call) : Prop :=
  List.Forall₂ (fun p q => p.1 = q.1 ∧ p.2.pyEq q.2 = true) c.assignments c'.assignments

theorem exists_of_forall₂ {α β : Type} {R : α → β → Prop} {l : List α} {l' : List β}
    (h : List.Forall₂ R l l') : ∀ q ∈ l', ∃ p ∈ l, R p q := by
  induction h with
  | nil => exact fun q hq => absurd hq List.not_mem_nil
  | @cons p q _ _ hpq _ ih =>
    intro r hr
    rcases List.mem_cons.mp hr with rfl | hr
    · exact ⟨p, List.mem_cons_self, hpq⟩
    · obtain ⟨p', hp', hpq'⟩ := ih r hr
      exact ⟨p', List.mem_cons_of_mem _ hp', hpq'⟩

/-- A call that returned changes nothing the next time, where the values are still the same. -/
theorem not_conflicts_of_same {a a' : Attrs} {c c' : Call} (hone : OneComment a c.assignments)
    (hreturned : (c.run a).2 = none) (hsame : c.Same c')
    (hheld : ∀ p ∈ c.assignments, p.1 ≠ "comment" → held a' p.1 = held (c.run a).1 p.1) :
    ¬∃ q ∈ c'.assignments, conflicts a' q = true := by
  rintro ⟨q, hq, hconflict⟩
  obtain ⟨hcomment, -, hne⟩ := conflicts_iff.mp hconflict
  obtain ⟨p, hp, hattr, heq⟩ := exists_of_forall₂ hsame q hq
  rw [← hattr] at hcomment hne
  have hvalue := assignAll_returned hone c.distinct hreturned p hp hcomment
  rw [hheld p hp hcomment, Call.run, PyVal.pyEq_trans hvalue heq] at hne
  nomatch hne

/-! ## The comments -/

/-- A value as it is joined. -/
def PyVal.text : PyVal → String
  | .none => "None"
  | .bool b => if b then "True" else "False"
  | .int n => toString n
  | .str s => s

/-- Comments joined by ` | ` -/
def joinComments : List PyVal → PyVal
  | [] => .none
  | [c] => c
  | cs => .str (" | ".intercalate (cs.map PyVal.text))

/-- The comments among some assignments, up to one that raises; `None` is none. -/
def newComments (a : Attrs) (l : List Assignment) : List PyVal :=
  (((l.takeWhile fun p => !conflicts a p).filter (·.1 = "comment")).map Prod.snd).filter (· ≠ .none)

theorem joinComments_ne_none {cs : List PyVal} (hcs : ∀ c ∈ cs, c ≠ .none) (hne : cs ≠ []) :
    joinComments cs ≠ .none := by
  match cs with
  | [] => exact absurd rfl hne
  | [c] => exact hcs c List.mem_cons_self
  | _ :: _ :: _ => exact fun h => nomatch h

theorem takeWhile_congr {α : Type} {p q : α → Bool} {l : List α} (h : ∀ x ∈ l, p x = q x) :
    l.takeWhile p = l.takeWhile q := by
  induction l with
  | nil => rfl
  | cons x l ih =>
    rw [List.takeWhile_cons, List.takeWhile_cons, h x List.mem_cons_self,
      ih fun y hy => h y (List.mem_cons_of_mem x hy)]

theorem newComments_cons {a a' : Attrs} {x : String} {y : PyVal} {rest : List Assignment}
    (hp : conflicts a (x, y) = false) (hsame : ∀ p ∈ rest, conflicts a' p = conflicts a p) :
    newComments a ((x, y) :: rest) =
      (if x = "comment" ∧ y ≠ .none then [y] else []) ++ newComments a' rest := by
  have htake : rest.takeWhile (fun p => !conflicts a p) = rest.takeWhile fun p => !conflicts a' p :=
    takeWhile_congr fun p hp => by rw [hsame p hp]
  unfold newComments
  rw [List.takeWhile_cons_of_pos (by simp [hp]), htake]
  by_cases hx : x = "comment"
  · by_cases hy : y = .none
    · simp [hx, hy]
    · simp [hx, hy]
  · simp [hx]

/-- With one comment at most, the comment held is that one. -/
theorem assignAll_comment {a : Attrs} {l : List Assignment} {cs : List PyVal}
    (hone : OneComment a l) (hdistinct : Distinct l) (hcs : ∀ c ∈ cs, c ≠ .none)
    (hheld : held a "comment" = joinComments cs) :
    held (assignAll a l).1 "comment" = joinComments (cs ++ newComments a l) := by
  induction l generalizing a cs with
  | nil => simpa [assignAll, newComments] using hheld
  | cons p rest ih =>
    obtain ⟨x, y⟩ := p
    rcases assignAll_cons hone hdistinct with ⟨hp, e, he⟩ | ⟨hp, a', heq, hassigned, hone'⟩
    · rw [he]
      simpa [newComments, hp] using hheld
    · rw [heq, newComments_cons hp (hassigned.conflicts_eq hdistinct), ← List.append_assoc]
      apply ih hone' hdistinct.tail
      · intro c hc
        rcases List.mem_append.mp hc with hold | hnew
        · exact hcs c hold
        · split at hnew
          · next hy => exact (List.mem_singleton.mp hnew).symm ▸ hy.2
          · nomatch hnew
      · by_cases hx : x = "comment"
        · subst hx
          -- the comment before was none
          have hnone : held a "comment" = .none := hone.head
          have hempty : cs = [] := by
            by_contra hne
            exact joinComments_ne_none hcs hne (hheld.symm.trans hnone)
          rw [hassigned.self, if_pos hnone, hempty]
          by_cases hy : y = .none
          · simp [hy, joinComments]
          · simp [hy, joinComments]
        · rw [hassigned.other _ (Ne.symm hx), hheld]
          simp [hx]

/-! ## Runs -/

/-- What the objects hold, and the comments that were assigned to each. -/
structure CallState where
  objs : Nat → Attrs
  comments : Nat → List PyVal

/-- An object that is not yet constructed holds nothing. -/
def CallState.init : CallState := ⟨fun _ => ∅, fun _ => []⟩

/-- A call `c` on object `i` -/
def CallState.call (s : CallState) (i : Nat) (c : Call) : CallState where
  objs := Function.update s.objs i (c.run (s.objs i)).1
  comments := Function.update s.comments i (s.comments i ++ newComments (s.objs i) c.assignments)

/-- Calls in any order, each of which is allowed where it is made. -/
inductive CallRun (allowed : Attrs → Call → Prop) (s : CallState) : CallState → Prop
  | refl : CallRun allowed s s
  | call {s' : CallState} (i : Nat) (c : Call) (h : CallRun allowed s s')
      (hc : allowed (s'.objs i) c) :
      CallRun allowed s (s'.call i c)

/-- A call `c` on object `i` does what it is to. -/
structure Honoured (allowed : Attrs → Call → Prop) (s : CallState) (i : Nat) (c : Call) : Prop where
  raises_iff : (c.run (s.objs i)).2.isSome ↔ ∃ p ∈ c.assignments, conflicts (s.objs i) p = true
  keeps : ∀ p ∈ c.assignments, conflicts (s.objs i) p = true →
    held ((s.call i c).objs i) p.1 = held (s.objs i) p.1
  /-- At once, or later if it sets nothing to `None`. -/
  repeats : (c.run (s.objs i)).2 = none → ∀ s' c', CallRun allowed (s.call i c) s' →
    allowed (s'.objs i) c' →
    c.Same c' → (s'.objs i = (s.call i c).objs i ∨ ∀ p ∈ c.assignments, p.2 ≠ .none) →
    (c'.run (s'.objs i)).2 = none
  comment : held ((s.call i c).objs i) "comment" = joinComments ((s.call i c).comments i)

theorem CallState.call_objs (s : CallState) (i : Nat) (c : Call) :
    (s.call i c).objs i = (c.run (s.objs i)).1 := Function.update_self ..

/-- **No call loses a value.** -/
theorem CallRun.le {allowed : Attrs → Call → Prop} {s s' : CallState} (h : CallRun allowed s s')
    (i : Nat) : (s.objs i).Le (s'.objs i) := by
  induction h with
  | refl => exact fun _ _ => rfl
  | @call s' j c _ _ ih =>
    by_cases hij : i = j
    · subst hij
      rw [CallState.call_objs]
      exact ih.trans (assignAll_le _ _)
    · have hother : (s'.call j c).objs i = s'.objs i := Function.update_of_ne hij ..
      rwa [hother]

theorem mem_newComments {a : Attrs} {l : List Assignment} {c : PyVal} (h : c ∈ newComments a l) :
    c ≠ .none := by
  simpa using (List.mem_filter.mp h).2

/-- A call with one comment at most adds it to those of its object. -/
theorem CallState.call_comments {s : CallState} {i : Nat} {c : Call}
    (hc : OneComment (s.objs i) c.assignments)
    (hheld : held (s.objs i) "comment" = joinComments (s.comments i))
    (hcs : ∀ c ∈ s.comments i, c ≠ .none) :
    held ((s.call i c).objs i) "comment" = joinComments ((s.call i c).comments i) := by
  have hcomments : (s.call i c).comments i = s.comments i ++ newComments (s.objs i) c.assignments :=
    Function.update_self ..
  rw [CallState.call_objs, hcomments]
  exact assignAll_comment hc c.distinct hcs hheld

/-- The comments are joined, in every state. -/
theorem CallRun.comments {s : CallState}
    (h : CallRun (fun a c => OneComment a c.assignments) CallState.init s) (i : Nat) :
    held (s.objs i) "comment" = joinComments (s.comments i) ∧ ∀ c ∈ s.comments i, c ≠ .none := by
  induction h with
  | refl => exact ⟨rfl, fun c hc => absurd hc List.not_mem_nil⟩
  | @call s j c _ hc ih =>
    by_cases hij : i = j
    · subst hij
      refine ⟨CallState.call_comments hc ih.1 ih.2, fun d hd => ?_⟩
      rw [show (s.call i c).comments i = _ from Function.update_self ..] at hd
      rcases List.mem_append.mp hd with hold | hnew
      · exact ih.2 d hold
      · exact mem_newComments hnew
    · have hobjs : (s.call j c).objs i = s.objs i := Function.update_of_ne hij ..
      have hcomments : (s.call j c).comments i = s.comments i := Function.update_of_ne hij ..
      rwa [hobjs, hcomments]

/--
**As long as no comment is assigned over another, calls raise when they would change a value and
only then, values stay, calls can be repeated, and the comments are joined. A call that assigns a
comment over another raises a `TypeError`.**
-/
theorem calls_honoured {s : CallState}
    (hs : CallRun (fun a c => OneComment a c.assignments) CallState.init s) (i : Nat) (c : Call) :
    (OneComment (s.objs i) c.assignments → Honoured (fun a c => OneComment a c.assignments) s i c)
      ∧ (¬OneComment (s.objs i) c.assignments → (c.run (s.objs i)).2 = some .typeError) := by
  refine ⟨fun hc => ?_, fun hc => assignAll_typeError hc c.distinct⟩
  obtain ⟨hheld, hcs⟩ := hs.comments i
  refine ⟨assignAll_raises_iff hc c.distinct, ?_, ?_, CallState.call_comments hc hheld hcs⟩
  · intro p _ hconflict
    rw [CallState.call_objs]
    exact assignAll_le _ _ p.1 (conflicts_iff.mp hconflict).2.1
  · intro hreturned s' c' hrun hc' hsame hbetween
    have hstill : ∀ p ∈ c.assignments, p.1 ≠ "comment" → held (s'.objs i) p.1 =
        held (c.run (s.objs i)).1 p.1 := by
      intro p hp hcomment
      rw [← CallState.call_objs]
      rcases hbetween with heq | hset
      · rw [heq]
      · apply hrun.le i p.1
        intro hnone
        have hvalue := assignAll_returned hc c.distinct hreturned p hp hcomment
        rw [CallState.call_objs, Call.run] at hnone
        rw [hnone] at hvalue
        exact hset p hp (PyVal.pyEq_none hvalue)
    have hno := not_conflicts_of_same hc hreturned hsame hstill
    rw [← assignAll_raises_iff hc' c'.distinct] at hno
    exact Option.not_isSome_iff_eq_none.mp hno

theorem oneComment_attr {a : Attrs} {x : String} {y : PyVal}
    (h : x = "comment" → held a x = .none) : OneComment a (Call.attr x y).assignments := by
  intro before y' after heq
  cases before with
  | nil =>
    have hx : x = "comment" := congrArg Prod.fst (List.cons.inj heq).1
    exact .inr ⟨hx ▸ h hx, fun p hp => absurd hp List.not_mem_nil⟩
  | cons p before => simp [Call.assignments] at heq

/-- A port is made without a width, which is then set to another value. -/
theorem calls_honoured_port : Honoured (fun a c => OneComment a c.assignments)
    (CallState.init.call 0 (.port "clk")) 0 (.attr "width" (.int 8)) := by
  refine (calls_honoured (.call 0 _ .refl fun before y after heq => ?_) 0 _).1
    (oneComment_attr fun h => nomatch h)
  have hcomment : ("comment", y) ∈ (Call.port "clk").assignments := by
    rw [heq]
    simp
  simp [Call.assignments, Kwargs.empty] at hcomment

/-- A parameter with a comment -/
theorem parameter_comment_raises :
    ¬∀ s, CallRun (fun _ _ => True) CallState.init s → ∀ i c, Honoured (fun _ _ => True) s i c := by
  intro hall
  have hcall := hall CallState.init .refl 0 (.parameter "G_NUM_UNITS" (.int 4) (.str "ADC chips"))
  obtain ⟨p, -, hconflict⟩ := hcall.raises_iff.mp (by decide)
  exact (conflicts_iff.mp hconflict).2.1 rfl

end MlibDevel.Verilog
