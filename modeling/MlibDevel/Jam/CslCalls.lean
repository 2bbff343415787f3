import MlibDevel.Jam.CslPayload

/-!
# Calls of the iterator in any order

`csl_iter_init`, `csl_iter_next` and `csl_find_by_payload` share one set of static variables.  A
client may mix them as it likes, and `csl_find_by_payload(NULL, ..)` goes on from wherever the last
call has stopped.

While an iteration is under way the pointer stands inside its list.  The call that finds the end
moves it behind the terminator (`CslSession.Inv`), so what the next call may do depends on whether
it reads at all.
-/

namespace MlibDevel.Jam

/-- The calls that share the iterator.  A list is given by a call that starts an iteration. -/
inductive CslCall
  | iterInit (l : CslList)
  | iterNext
  | findFirst (l : CslList) (plidx plval : UInt8)
  | findNext (plidx plval : UInt8)

/--
The static variables and whether an iteration is under way: one has been started and has not
returned NULL for the end of its list since.
-/
structure CslSession where
  iter : CslIter
  running : Bool

/-- Before the first call. -/
def CslSession.start : CslSession := ⟨CslIter.zero, false⟩

/-- NULL from a search is the end of the list only when the index passed the range check. -/
def CslSession.found (running : Bool) (plidx : UInt8) (r : FindResult) :
    CslSession × Option (List UInt8) :=
  (⟨r.iter, if plidx > r.iter.plLen then running else r.payload.isSome⟩, r.payload)

/-- One call: what it leaves and the pointer it returns, `none` when it reads outside a list. -/
def CslSession.call (s : CslSession) : CslCall → Option (CslSession × Option (List UInt8))
  | .iterInit l => (cslIterInit s.iter l.bytes).map fun iter => (⟨iter, true⟩, none)
  | .iterNext => (cslIterNext s.iter).map fun (iter, p) => (⟨iter, p.isSome⟩, p)
  | .findFirst l plidx plval =>
    (cslFindByPayload s.iter (some l.bytes) plidx plval).map (CslSession.found true plidx)
  | .findNext plidx plval =>
    (cslFindByPayload s.iter none plidx plval).map (CslSession.found s.running plidx)

/-- The calls that go on with the iteration under way. -/
def CslCall.Continues : CslCall → Prop
  | .iterNext => True
  | .findNext _ _ => True
  | _ => False

/-- Every call stays inside its list, and behind the end of a list the answer stays NULL. -/
def CslSession.Safe (s : CslSession) : List CslCall → Prop
  | [] => True
  | c :: cs => ∃ s' p, s.call c = some (s', p) ∧
      (s.running = false → c.Continues → p = none) ∧ s'.Safe cs

/-- A call that would read on is made only while an iteration is under way. -/
def CslSession.Allows (s : CslSession) : CslCall → Prop
  | .iterNext => s.running = true
  | .findNext plidx _ => s.running = true ∨ plidx > s.iter.plLen
  | _ => True

/-- Every call of a sequence is made in a state that allows it. -/
def CslSession.AllowsAll (s : CslSession) : List CslCall → Prop
  | [] => True
  | c :: cs => s.Allows c ∧ ∀ s' p, s.call c = some (s', p) → s'.AllowsAll cs

/-- The list a call starts an iteration over has no name twice. -/
def CslCall.Distinct : CslCall → Prop
  | .iterInit l => l.Distinct
  | .findFirst l _ _ => l.Distinct
  | _ => True

/--
While an iteration is under way the pointer stands in front of an entry or of an empty tail.  When
no list has a name twice (`exact`), the empty tail is the terminator, and behind the end the pointer
has run off the list.
-/
structure CslSession.Inv (exact : Prop) (s : CslSession) : Prop where
  running : s.running = true → ∃ head z es, IterOpen (head :: 0 :: z) es s.iter ∧ (exact → z = [])
  ended : exact → s.running = false → s.iter.pcsl = []

theorem cslIterNext_off {s : CslIter} (h : s.pcsl = []) : cslIterNext s = none := by
  unfold cslIterNext
  split
  · rfl
  · next h' => rw [h] at h'; simp at h'

section

variable {exact : Prop} {plidx plval : UInt8} {s : CslSession}

/-- A search under way returns an entry and stands behind it, or NULL and has come to the end. -/
theorem findPayload_open {head : UInt8} {z : List UInt8} (hz : exact → z = []) :
    ∀ {es : List Entry} {s : CslIter}, IterOpen (head :: 0 :: z) es s → ¬ plidx > s.plLen →
    ∃ r, findPayload s plidx plval = some r ∧ r.iter.plLen = s.plLen ∧
      (CslSession.mk r.iter r.payload.isSome).Inv exact
  | [], s, hs, _ => by
    refine ⟨_, findPayload_end plidx plval (cslIterNext_open_nil hs), rfl, ?_, fun h _ => hz h⟩
    simp
  | e :: es, s, hs, hle => by
    obtain ⟨s', hnext, hpl, -, hs'⟩ := cslIterNext_open_cons (by simp) hs
    have hfit := (hs.fits e List.mem_cons_self).1
    obtain ⟨b, rest, hdrop⟩ := payloadPtr_drop (z := head :: 0 :: z) es (by simp) hfit hle
    by_cases hb : b = plval
    · subst hb
      refine ⟨_, findPayload_hit hnext hdrop, hpl, fun _ => ⟨head, z, es, hs', hz⟩, ?_⟩
      simp
    · obtain ⟨r, hr, hrpl, hinv⟩ := findPayload_open hz hs' (by rw [hpl]; exact hle)
      refine ⟨{ r with reads := (b :: rest) :: r.reads }, ?_, hrpl.trans hpl, hinv⟩
      rw [findPayload_miss hnext hdrop hb, hr, Option.map_some]

/-- A search that may go on does so, and one with an index out of range changes nothing. -/
theorem cslFindByPayload_open (hinv : s.Inv exact)
    (hallow : s.running = true ∨ plidx > s.iter.plLen) :
    ∃ r, cslFindByPayload s.iter none plidx plval = some r ∧
      (CslSession.found s.running plidx r).1.Inv exact ∧
      (s.running = false → r.payload = none) := by
  rw [cslFindByPayload_none]
  by_cases hgt : plidx > s.iter.plLen
  · rw [if_pos hgt]
    refine ⟨_, rfl, ?_, fun _ => rfl⟩
    rw [CslSession.found, if_pos hgt]
    exact hinv
  · have hrun := hallow.resolve_right hgt
    obtain ⟨head, z, es, hopen, hz⟩ := hinv.running hrun
    obtain ⟨r, hr, hpl, hinv'⟩ := findPayload_open hz hopen hgt
    rw [if_neg hgt]
    refine ⟨r, hr, ?_, fun hf => by simp [hrun] at hf⟩
    rw [CslSession.found, if_neg (by rw [hpl]; exact hgt)]
    exact hinv'

/-- `csl_iter_init` starts an iteration. -/
theorem cslIterInit_inv (iter : CslIter) {l : CslList} (hd : exact → l.Distinct) :
    ∃ iter', cslIterInit iter l.bytes = some iter' ∧ (CslSession.mk iter' true).Inv exact := by
  obtain ⟨iter', head, z, hinit, -, hopen, hz⟩ := cslIterInit_open iter l
  refine ⟨iter', hinit, fun _ => ⟨head, z, _, hopen, fun h => ?_⟩, fun _ hf => by simp at hf⟩
  have hend := hz (hd h)
  simp only [List.cons.injEq, true_and] at hend
  exact hend.2

/-- An allowed call stays inside its list, keeps the invariant and answers NULL behind the end. -/
theorem CslSession.Inv.call (hinv : s.Inv exact) {c : CslCall} (hd : exact → c.Distinct)
    (hallow : s.Allows c) :
    ∃ s' p, s.call c = some (s', p) ∧ s'.Inv exact ∧
      (s.running = false → c.Continues → p = none) := by
  cases c with
  | iterInit l =>
    obtain ⟨iter, hinit, hinv'⟩ := cslIterInit_inv s.iter hd
    exact ⟨_, none, by rw [CslSession.call, hinit]; rfl, hinv', fun _ _ => rfl⟩
  | iterNext =>
    obtain ⟨head, z, es, hopen, hz⟩ := hinv.running hallow
    have hnot : ∀ p : Option (List UInt8),
        s.running = false → CslCall.iterNext.Continues → p = none := by
      intro p hf
      rw [show s.running = true from hallow] at hf
      simp at hf
    cases es with
    | nil =>
      refine ⟨_, none, by rw [CslSession.call, cslIterNext_open_nil hopen]; rfl, ⟨?_, ?_⟩, hnot _⟩
      · simp
      · exact fun h _ => hz h
    | cons e es =>
      obtain ⟨iter, hnext, -, -, hopen'⟩ := cslIterNext_open_cons (by simp) hopen
      refine ⟨_, _, by rw [CslSession.call, hnext]; rfl, ⟨?_, ?_⟩, hnot _⟩
      · exact fun _ => ⟨head, z, _, hopen', hz⟩
      · simp
  | findFirst l plidx plval =>
    obtain ⟨iter, hinit, hstart⟩ := cslIterInit_inv s.iter hd
    obtain ⟨r, hr, hinv', -⟩ := cslFindByPayload_open hstart (Or.inl rfl)
    refine ⟨_, r.payload, ?_, hinv', fun _ hc => hc.elim⟩
    rw [CslSession.call, cslFindByPayload_some, hinit, Option.bind_some, hr]
    rfl
  | findNext plidx plval =>
    obtain ⟨r, hr, hinv', hnull⟩ := cslFindByPayload_open hinv hallow
    exact ⟨_, r.payload, by rw [CslSession.call, hr]; rfl, hinv', fun hf _ => hnull hf⟩

/-- When no list has a name twice, a call that is not allowed reads behind the terminator. -/
theorem CslSession.Inv.call_none (hinv : s.Inv True) {c : CslCall} (hallow : ¬ s.Allows c) :
    s.call c = none := by
  cases c with
  | iterInit l => exact absurd trivial hallow
  | findFirst l plidx plval => exact absurd trivial hallow
  | iterNext =>
    have hoff := hinv.ended trivial (by simpa [CslSession.Allows] using hallow)
    rw [CslSession.call, cslIterNext_off hoff, Option.map_none]
  | findNext plidx plval =>
    obtain ⟨hrun, hle⟩ := not_or.mp hallow
    have hoff := cslIterNext_off (hinv.ended trivial (by simpa using hrun))
    have hfind : findPayload s.iter plidx plval = none := by
      rw [findPayload]
      split <;> simp_all
    rw [CslSession.call, cslFindByPayload_none, if_neg hle, hfind, Option.map_none]

end

/-- Allowed calls are safe, whatever lists they are given. -/
theorem CslSession.Inv.safe {s : CslSession} (hinv : s.Inv False) {cs : List CslCall}
    (h : s.AllowsAll cs) : s.Safe cs := by
  induction cs generalizing s with
  | nil => trivial
  | cons c cs ih =>
    obtain ⟨s', p, hcall, hinv', hnull⟩ := hinv.call False.elim h.1
    exact ⟨s', p, hcall, hnull, ih hinv' (h.2 s' p hcall)⟩

/-- For lists without a repeated name only allowed calls are safe. -/
theorem CslSession.Inv.allowsAll {s : CslSession} (hinv : s.Inv True) {cs : List CslCall}
    (hd : ∀ c ∈ cs, c.Distinct) (h : s.Safe cs) : s.AllowsAll cs := by
  induction cs generalizing s with
  | nil => trivial
  | cons c cs ih =>
    obtain ⟨s', p, hcall, -, hsafe⟩ := h
    by_cases hallow : s.Allows c
    · obtain ⟨t, q, hcall', hinv', -⟩ := hinv.call (fun _ => hd c List.mem_cons_self) hallow
      refine ⟨hallow, fun u r hu => ?_⟩
      rw [hcall] at hu hcall'
      simp only [Option.some.injEq, Prod.mk.injEq] at hu hcall'
      obtain ⟨rfl, rfl⟩ := hu
      obtain ⟨rfl, rfl⟩ := hcall'
      exact ih hinv' (fun c hc => hd c (List.mem_cons_of_mem _ hc)) hsafe
    · rw [hinv.call_none hallow] at hcall
      simp at hcall

theorem CslSession.start_inv (exact : Prop) : CslSession.start.Inv exact :=
  ⟨fun h => absurd h (by decide), fun _ _ => rfl⟩

/--
**A sequence of calls is safe when none of them reads on behind the end.**

`csl_iter_next` sees the end while it advances its pointer, so behind the end the pointer has left
the list.  Only a search with an index out of range may then be made: it returns before it reads.
For lists in which no name occurs twice the condition is exact.
-/
theorem calls_safe (cs : List CslCall) :
    (CslSession.start.AllowsAll cs → CslSession.start.Safe cs) ∧
      ((∀ c ∈ cs, c.Distinct) → CslSession.start.Safe cs → CslSession.start.AllowsAll cs) :=
  ⟨fun h => (CslSession.start_inv False).safe h,
    fun hd h => (CslSession.start_inv True).allowsAll hd h⟩

instance (s : CslSession) : (c : CslCall) → Decidable (s.Allows c)
  | .iterInit _ => isTrue trivial
  | .iterNext => inferInstanceAs (Decidable (s.running = true))
  | .findFirst _ _ _ => isTrue trivial
  | .findNext plidx _ => inferInstanceAs (Decidable (s.running = true ∨ plidx > s.iter.plLen))

instance CslSession.decidableAllowsAll : (cs : List CslCall) → (s : CslSession) →
    Decidable (s.AllowsAll cs)
  | [], _ => isTrue trivial
  | c :: cs, s =>
    have := decidableAllowsAll cs
    decidable_of_iff (s.Allows c ∧ ∀ r ∈ s.call c, r.1.AllowsAll cs)
      (and_congr_right fun _ => Prod.forall)

/-- An iteration to the end, searches over the list, and one behind its end with an index out of
range. -/
def ramListCalls : List CslCall :=
  [.iterInit ramList, .iterNext, .iterNext, .iterNext, .findFirst ramList 0 2, .findNext 0 2,
    .findNext 9 2]

theorem ramList_calls_safe : CslSession.start.Safe ramListCalls :=
  (calls_safe _).1 (by decide +kernel)

/-- In a safe sequence no call reads outside its list. -/
theorem CslSession.Safe.run {cs : List CslCall} {s : CslSession} (h : s.Safe cs) :
    (cs.foldlM (fun (t : CslSession) c => (t.call c).map Prod.fst) s).isSome = true := by
  induction cs generalizing s with
  | nil => rfl
  | cons c cs ih =>
    obtain ⟨s', p, hcall, -, hsafe⟩ := h
    rw [List.foldlM_cons, hcall]
    exact ih hsafe

/-- Two entries, the end, and one call too many. -/
theorem ramList_not_safe :
    ¬ CslSession.start.Safe
      [.iterInit ramList, .iterNext, .iterNext, .iterNext, .iterNext] := by
  intro hsafe
  have hrun := hsafe.run
  revert hrun
  decide +kernel

end MlibDevel.Jam
