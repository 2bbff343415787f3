import MlibDevel.Jam.CslFind

/-!
# Iterating over a compact sorted list

`csl_iter_next` rebuilds each name in a static buffer from the name before it.  Between two calls
the buffer holds the previous name and the pointer stands behind the next head size; that is all
`IterAt` says.

An entry with an empty tail looks like the terminator, so the iteration over a sorted list ends at
the first name that repeats the one before it (`cslIterAll_eq`).
-/

namespace MlibDevel.Jam

open Lib

/-! ## A whole iteration -/

/-- Copying a tail moves the list pointer forward only. -/
theorem copyTail_pcsl_length : ∀ {n : Nat} {key : List UInt8} {i : Nat} {pcsl : List UInt8}
    {r : List UInt8 × Nat × List UInt8}, copyTail n key i pcsl = some r →
    r.2.2.length ≤ pcsl.length
  | 0, _, _, _, _, h => by rw [copyTail] at h; rw [← Option.some.inj h]
  | n + 1, key, i, [], r, h => by simp [copyTail] at h
  | n + 1, key, i, c :: pcsl, r, h => by
    rw [copyTail] at h
    split at h
    · simp at h
    · have := copyTail_pcsl_length h
      simp; omega

theorem cslIterNext_length {s s' : CslIter} {p : List UInt8}
    (h : cslIterNext s = some (s', some p)) : s'.pcsl.length < s.pcsl.length := by
  unfold cslIterNext at h
  split at h
  · simp at h
  next ntail pcsl hs =>
  split at h
  · simp at h
  split at h
  · simp at h
  next key i payload hc =>
  split at h
  · simp at h
  split at h
  · simp at h
  next nhead rest hd =>
  simp only [Option.some.injEq, Prod.mk.injEq] at h
  have hlen := congrArg List.length hd
  have hcl := copyTail_pcsl_length hc
  rw [← h.1, hs]
  simp at hlen hcl ⊢
  omega

/-- `csl_iter_next` until it returns NULL: the names it leaves in `csl_key`, as C strings. -/
def cslIterAll (s : CslIter) : Option (List (List UInt8)) :=
  match _h : cslIterNext s with
  | none => none
  | some (_, none) => some []
  | some (s', some _) => (cslIterAll s').map (cstr s'.key :: ·)
termination_by s.pcsl.length
decreasing_by exact cslIterNext_length _h

/-- The names an iteration over the list at `csl` visits. -/
def cslVisit (csl : List UInt8) : Option (List (List UInt8)) :=
  (cslIterInit CslIter.zero csl).bind cslIterAll

/-! ## One step -/

theorem copyTail_append : ∀ (t a b rest : List UInt8), t.length ≤ b.length →
    copyTail t.length (a ++ b) a.length (t ++ rest)
      = some (a ++ t ++ b.drop t.length, (a ++ t).length, rest)
  | [], a, b, rest, _ => by simp [copyTail]
  | c :: t, a, [], rest, h => by simp at h
  | c :: t, a, x :: b, rest, h => by
    have hstore : storeKey (a ++ x :: b) a.length c = some ((a ++ [c]) ++ b) := by
      rw [storeKey, if_pos (by simp), List.set_append_right (h := Nat.le_refl _)]
      simp
    rw [List.length_cons, List.cons_append, copyTail, hstore]
    have ih := copyTail_append t (a ++ [c]) b rest (by simpa using h)
    rw [List.length_append, List.length_singleton] at ih
    simp only [ih]
    simp

/-- Between two calls: `prev` is the name in the buffer, `stream` what follows its payload. -/
structure IterAt (prev stream : List UInt8) (s : CslIter) : Prop where
  key : ∃ junk, s.key = prev ++ 0 :: junk
  stream : s.nhead :: s.pcsl = stream

theorem cstr_append_zero {name junk : List UInt8} : cstr (name ++ 0 :: junk) = cstr name := by
  induction name with
  | nil => simp [cstr]
  | cons c name ih =>
    unfold cstr at *
    by_cases h : c = 0
    · simp [h]
    · rw [List.cons_append, List.takeWhile_cons_of_pos (by simpa using h),
        List.takeWhile_cons_of_pos (by simpa using h), ih]

/-- A name without NUL characters is the C string it denotes. -/
theorem cstr_eq_self {name : List UInt8} (h : 0 ∉ name) : cstr name = name := by
  have hne : ∀ c ∈ name, decide (c ≠ 0) = true := by
    intro c hc
    rw [decide_eq_true_eq]
    rintro rfl
    exact h hc
  have happ : (name ++ []).takeWhile (· ≠ 0) = name ++ [] := List.takeWhile_append_of_pos hne
  rw [List.append_nil] at happ
  exact happ

/-- A call on an entry that is not a repetition rebuilds its name and moves behind it. -/
theorem cslIterNext_entry {prev z : List UInt8} {e : Entry} {es : List Entry} {s : CslIter}
    (hfit : e.Fits s.plLen) (hlt : prev < e.name) (hprev : prev.length ≤ 255)
    (hz : frontCode e.name es ++ z ≠ []) (hs : IterAt prev (frontCode prev (e :: es) ++ z) s) :
    ∃ s', cslIterNext s = some (s', some (e.payload ++ (frontCode e.name es ++ z))) ∧
      s'.plLen = s.plLen ∧ IterAt e.name (frontCode e.name es ++ z) s' := by
  obtain ⟨hpl, hlen⟩ := hfit
  obtain ⟨⟨junk, hkey⟩, hstream⟩ := hs
  have hle := lcp_le_right prev e.name
  have hlep := lcp_le_left prev e.name
  have htail := lcp_lt_length_of_lt hlt
  have hsize : prev.length + 1 + junk.length = 256 := by
    have := s.key_size
    rw [hkey] at this
    simp [cslKeySize] at this
    omega
  rw [frontCode, List.cons_append, List.append_assoc, entryBody, List.cons_append,
    List.append_assoc] at hstream
  simp only [List.cons.injEq] at hstream
  obtain ⟨hhead, hpcsl⟩ := hstream
  have hnt : (UInt8.ofNat (e.name.length - lcp prev e.name)).toNat
      = (e.name.drop (lcp prev e.name)).length := by simp; omega
  have hne0 : UInt8.ofNat (e.name.length - lcp prev e.name) ≠ 0 := by
    intro h0
    rw [h0] at hnt
    simp at hnt; omega
  have hnhead : s.nhead.toNat = (e.name.take (lcp prev e.name)).length := by
    rw [hhead]; simp; omega
  -- the shared characters are already in the buffer
  have hbuf : s.key = e.name.take (lcp prev e.name)
      ++ (prev.drop (lcp prev e.name) ++ 0 :: junk) := by
    rw [hkey, ← take_lcp prev e.name, ← List.append_assoc, List.take_append_drop]
  have hcopy := copyTail_append (e.name.drop (lcp prev e.name)) (e.name.take (lcp prev e.name))
    (prev.drop (lcp prev e.name) ++ 0 :: junk) (e.payload ++ (frontCode e.name es ++ z))
    (by simp; omega)
  rw [List.take_append_drop, ← hbuf, ← hnhead, ← hnt] at hcopy
  generalize hb : (prev.drop (lcp prev e.name) ++ 0 :: junk).drop _ = b at hcopy
  obtain ⟨x, b', rfl⟩ : ∃ x b', b = x :: b' := by
    refine List.exists_cons_of_ne_nil fun h0 => ?_
    have := congrArg List.length hb
    rw [h0] at this
    simp at this; omega
  have hstore : storeKey (e.name ++ x :: b') e.name.length 0 = some (e.name ++ 0 :: b') := by
    rw [storeKey, if_pos (by simp), List.set_append_right (h := Nat.le_refl _)]
    simp
  have hdrop : (e.payload ++ (frontCode e.name es ++ z)).drop s.plLen.toNat
      = frontCode e.name es ++ z := List.drop_left' hpl
  obtain ⟨nhead', pcsl', hrest⟩ := List.exists_cons_of_ne_nil hz
  unfold cslIterNext
  split
  · next h => rw [hpcsl] at h; simp at h
  next ntail pcsl h =>
  rw [hpcsl] at h
  obtain ⟨rfl, rfl⟩ := List.cons.inj h
  rw [if_neg hne0]
  split
  · next hc => rw [hcopy] at hc; simp at hc
  next key i payload hc =>
  rw [hcopy] at hc
  simp only [Option.some.injEq, Prod.mk.injEq] at hc
  obtain ⟨rfl, rfl, rfl⟩ := hc
  split
  · next hk => rw [hstore] at hk; simp at hk
  next key' hk =>
  rw [hstore] at hk
  obtain rfl := Option.some.inj hk
  split
  · next hd => rw [hdrop, hrest] at hd; simp at hd
  next nhead pcsl hd =>
  rw [hdrop] at hd
  exact ⟨_, rfl, rfl, ⟨b', rfl⟩, hd.symm⟩

/-- An empty tail ends the iteration and leaves the pointer behind it. -/
theorem cslIterNext_zero {s : CslIter} {z : List UInt8} (h : s.pcsl = 0 :: z) :
    cslIterNext s = some ({ s with pcsl := z }, none) := by
  unfold cslIterNext
  split
  · next h' => rw [h] at h'; simp at h'
  next ntail pcsl h' =>
  rw [h] at h'
  obtain ⟨rfl, rfl⟩ := List.cons.inj h'
  exact if_pos rfl

/-- A call on the terminator, or on a repeated name, ends the iteration. -/
theorem cslIterNext_end {prev z : List UInt8} {s : CslIter} {head : UInt8}
    (hs : IterAt prev (head :: 0 :: z) s) : ∃ s', cslIterNext s = some (s', none) :=
  ⟨_, cslIterNext_zero (List.cons.inj hs.stream).2⟩

/-! ## The whole list -/

/-- The entries up to the first one that repeats the name before it. -/
def distinctRun (prev : List UInt8) : List Entry → List Entry
  | [] => []
  | e :: es => if e.name = prev then [] else e :: distinctRun e.name es

theorem cslIterAll_step {s s' : CslIter} {p : List UInt8}
    (h : cslIterNext s = some (s', some p)) :
    cslIterAll s = (cslIterAll s').map (cstr s'.key :: ·) := by
  rw [cslIterAll]
  split <;> simp_all

theorem cslIterAll_stop {s s' : CslIter} (h : cslIterNext s = some (s', none)) :
    cslIterAll s = some [] := by
  rw [cslIterAll]
  split <;> simp_all

/--
**An iteration visits the names in order, up to the first repetition.**

The entries are sorted, so a name that is not larger than the one before it is the same name, and
its tail is empty.
-/
theorem cslIterAll_eq : ∀ (es : List Entry) (prev : List UInt8) (s : CslIter),
    (∀ e ∈ es, e.Fits s.plLen) → prev.length ≤ 255 →
    (prev :: es.map Entry.name).Pairwise (· ≤ ·) →
    IterAt prev (frontCode prev es ++ [0, 0]) s →
    cslIterAll s = some ((distinctRun prev es).map fun e => cstr e.name)
  | [], prev, s, _, _, _, hs => by
    obtain ⟨s', h⟩ := cslIterNext_end (z := []) hs
    rw [cslIterAll_stop h]
    rfl
  | e :: es, prev, s, hfit, hprev, hsort, hs => by
    rw [List.map_cons] at hsort
    obtain ⟨hle, hsort'⟩ := List.pairwise_cons.mp hsort
    by_cases heq : e.name = prev
    · rw [distinctRun, if_pos heq]
      rw [frontCode, entryBody, heq, lcp_self, Nat.sub_self] at hs
      obtain ⟨s', h⟩ := cslIterNext_end hs
      rw [cslIterAll_stop h]
      rfl
    · have hlt : prev < e.name := lt_of_le_of_ne (hle e.name (by simp)) (Ne.symm heq)
      obtain ⟨s', hnext, hpl, hs'⟩ := cslIterNext_entry (hfit e (by simp)) hlt hprev
        (by simp) hs
      have ih := cslIterAll_eq es e.name s' (fun f hf => hpl ▸ hfit f (by simp [hf]))
        (hfit e (by simp)).2 hsort' hs'
      obtain ⟨junk, hkey⟩ := hs'.key
      rw [cslIterAll_step hnext, ih, distinctRun, if_neg heq, hkey, cstr_append_zero]
      rfl

/-- Whatever an earlier iteration left behind, `csl_iter_init` starts with an empty name. -/
theorem cslIterInit_cons (s : CslIter) (plLen : UInt8) (pcsl : List UInt8) :
    ∃ s', cslIterInit s (plLen :: pcsl) = some s' ∧ s'.plLen = plLen ∧
      IterAt [] (0 :: pcsl) s' := by
  obtain ⟨x, b, hkey⟩ : ∃ x b, s.key = x :: b := by
    refine List.exists_cons_of_ne_nil fun h => ?_
    have hsize := s.key_size
    rw [h] at hsize
    simp [cslKeySize] at hsize
  have hstore : storeKey s.key 0 0 = some (0 :: b) := by
    rw [hkey, storeKey, if_pos (by simp)]; rfl
  unfold cslIterInit
  split
  · next plLen' pcsl' key hl hk =>
    obtain ⟨rfl, rfl⟩ := List.cons.inj hl
    rw [hstore] at hk
    exact ⟨_, rfl, rfl, ⟨b, (Option.some.inj hk).symm⟩, rfl⟩
  · next hn => exact absurd hstore (hn plLen pcsl _ rfl)

/-- The same from `csl_iter_init` on, for a list the encoding loop wrote. -/
theorem cslVisit_cslBytes {es : List Entry}
    (hfit : ∀ e ∈ es, e.Fits (UInt8.ofNat payloadLength))
    (hsort : (es.map Entry.name).Pairwise (· ≤ ·)) :
    cslVisit (cslBytes es ++ [0, 0]) = some ((distinctRun [] es).map fun e => cstr e.name) := by
  have hsort' : ([] :: es.map Entry.name).Pairwise (· ≤ ·) :=
    List.pairwise_cons.mpr ⟨fun _ _ => not_lt.mp (List.not_lt_nil _), hsort⟩
  cases es with
  | nil =>
    obtain ⟨s, hs, _, hat⟩ := cslIterInit_cons CslIter.zero 0 [0]
    rw [cslBytes, List.nil_append, cslVisit, hs, Option.bind_some]
    exact cslIterAll_eq [] [] s (by simp) (by simp) hsort' hat
  | cons e es =>
    obtain ⟨s, hs, hpl, hat⟩ := cslIterInit_cons CslIter.zero (UInt8.ofNat payloadLength)
      (entryBody [] e ++ frontCode e.name es ++ [0, 0])
    rw [cslBytes, List.cons_append, cslVisit, hs, Option.bind_some]
    refine cslIterAll_eq (e :: es) [] s (by rw [hpl]; exact hfit) (by simp) hsort' ?_
    rw [frontCode, lcp_nil_left]
    exact hat

/-! ## Sorted names with repetitions -/

theorem distinctRun_isPrefix (prev : List UInt8) : ∀ es : List Entry,
    ∃ rest, es = distinctRun prev es ++ rest
  | [] => ⟨[], rfl⟩
  | e :: es => by
    rw [distinctRun]
    split
    · exact ⟨e :: es, rfl⟩
    · obtain ⟨rest, h⟩ := distinctRun_isPrefix e.name es
      exact ⟨rest, by rw [List.cons_append, ← h]⟩

theorem mem_of_mem_distinctRun {prev : List UInt8} {es : List Entry} {e : Entry}
    (h : e ∈ distinctRun prev es) : e ∈ es := by
  obtain ⟨rest, hr⟩ := distinctRun_isPrefix prev es
  rw [hr]; exact List.mem_append_left _ h

/-- Up to the first repetition, sorted names increase strictly. -/
theorem distinctRun_strict : ∀ {es : List Entry} {prev : List UInt8},
    (prev :: es.map Entry.name).Pairwise (· ≤ ·) →
    (distinctRun prev es).Pairwise fun a b => a.name < b.name
  | [], _, _ => List.Pairwise.nil
  | e :: es, prev, hsort => by
    rw [List.map_cons] at hsort
    have hsort' := (List.pairwise_cons.mp hsort).2
    rw [distinctRun]
    split
    · exact List.Pairwise.nil
    · refine List.pairwise_cons.mpr ⟨fun f hf => ?_, distinctRun_strict hsort'⟩
      have hle := (List.pairwise_cons.mp hsort').1
      refine lt_of_le_of_ne (hle f.name (List.mem_map_of_mem (mem_of_mem_distinctRun hf))) ?_
      -- the first entry of a run differs from the name before it, the others are larger still
      intro heq
      cases es with
      | nil => simp [distinctRun] at hf
      | cons g es =>
        rw [distinctRun] at hf
        split at hf
        · simp at hf
        · next hg =>
          have hlt : e.name < g.name := lt_of_le_of_ne (hle g.name (by simp)) (Ne.symm hg)
          rw [List.map_cons] at hsort'
          have hle' := (List.pairwise_cons.mp (List.pairwise_cons.mp hsort').2).1
          rcases List.mem_cons.mp hf with rfl | hf
          · exact hg heq.symm
          · have := hle' f.name (List.mem_map_of_mem (mem_of_mem_distinctRun hf))
            exact absurd heq (ne_of_lt (lt_of_lt_of_le hlt this))

/-- A name below every repeated name is in the run. -/
theorem mem_distinctRun {k : List UInt8} : ∀ {es : List Entry} {prev : List UInt8},
    (prev :: es.map Entry.name).Pairwise (· ≤ ·) →
    (∀ d, 2 ≤ (prev :: es.map Entry.name).count d → k ≤ d) → k ∈ es.map Entry.name →
    k = prev ∨ k ∈ (distinctRun prev es).map Entry.name
  | [], _, _, _, h => by simp at h
  | e :: es, prev, hsort, hrep, h => by
    rw [List.map_cons] at hsort hrep h
    obtain ⟨hle, hsort'⟩ := List.pairwise_cons.mp hsort
    rw [distinctRun]
    split
    · next heq =>
      refine Or.inl (le_antisymm (hrep prev ?_) (hle k h))
      rw [heq]
      simp only [List.count_cons_self]
      omega
    · right
      rcases List.mem_cons.mp h with rfl | h
      · exact List.mem_cons_self
      · have hrep' : ∀ d, 2 ≤ (e.name :: es.map Entry.name).count d → k ≤ d := fun d hd =>
          hrep d (le_trans hd (List.count_le_count_cons))
        rcases mem_distinctRun hsort' hrep' h with rfl | hk
        · exact List.mem_cons_self
        · exact List.mem_cons_of_mem _ hk

/-- No name of the run lies above a repeated name. -/
theorem distinctRun_le {d : List UInt8} : ∀ {es : List Entry} {prev : List UInt8},
    (prev :: es.map Entry.name).Pairwise (· ≤ ·) →
    2 ≤ (prev :: es.map Entry.name).count d → ∀ e ∈ distinctRun prev es, e.name ≤ d
  | [], _, _, _, e, he => by simp [distinctRun] at he
  | f :: es, prev, hsort, hcount, e, he => by
    rw [List.map_cons] at hsort hcount
    obtain ⟨hle, hsort'⟩ := List.pairwise_cons.mp hsort
    rw [distinctRun] at he
    split at he
    · simp at he
    · next hne =>
      have hlt : prev < f.name := lt_of_le_of_ne (hle f.name (by simp)) (Ne.symm hne)
      have hdne : prev ≠ d := by
        rintro rfl
        rw [List.count_cons_self] at hcount
        have hmem : prev ∈ f.name :: es.map Entry.name := List.count_pos_iff.mp (by omega)
        rcases List.mem_cons.mp hmem with heq | hmem
        · exact absurd heq (ne_of_lt hlt)
        · exact absurd (lt_of_lt_of_le hlt ((List.pairwise_cons.mp hsort').1 prev hmem))
            (lt_irrefl _)
      rw [List.count_cons_of_ne hdne] at hcount
      rcases List.mem_cons.mp he with rfl | he
      · have hmem : d ∈ e.name :: es.map Entry.name := List.count_pos_iff.mp (by omega)
        rcases List.mem_cons.mp hmem with heq | hmem
        · exact le_of_eq heq.symm
        · exact (List.pairwise_cons.mp hsort').1 d hmem
      · exact distinctRun_le hsort' hcount e he

/-- Without repetitions the run is everything. -/
theorem distinctRun_of_nodup : ∀ {es : List Entry} {prev : List UInt8},
    (prev :: es.map Entry.name).Nodup → distinctRun prev es = es
  | [], _, _ => rfl
  | e :: es, prev, h => by
    rw [List.map_cons] at h
    obtain ⟨hne, h'⟩ := List.nodup_cons.mp h
    have hname : e.name ≠ prev := fun heq => hne (by rw [heq]; exact List.mem_cons_self)
    rw [distinctRun, if_neg hname, distinctRun_of_nodup h']

/-- In front of the first repetition the stream is that of the run, and then a tail is empty. -/
theorem frontCode_distinctRun : ∀ (es : List Entry) (prev : List UInt8),
    ∃ head z, frontCode prev es ++ [0, 0] = frontCode prev (distinctRun prev es) ++ head :: 0 :: z
  | [], _ => ⟨0, [], rfl⟩
  | e :: es, prev => by
    rw [distinctRun]
    split
    · next heq =>
      have hbody : entryBody prev e = 0 :: (e.name.drop prev.length ++ e.payload) := by
        rw [entryBody, heq, lcp_self, Nat.sub_self]
        rfl
      refine ⟨UInt8.ofNat (lcp prev e.name),
        e.name.drop prev.length ++ e.payload ++ (frontCode e.name es ++ [0, 0]), ?_⟩
      rw [frontCode, frontCode, hbody]
      simp
    · obtain ⟨head, z, h⟩ := frontCode_distinctRun es e.name
      refine ⟨head, z, ?_⟩
      rw [frontCode, frontCode, List.cons_append, List.append_assoc, h]
      simp

end MlibDevel.Jam
