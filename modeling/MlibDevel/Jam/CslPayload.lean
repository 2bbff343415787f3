import Mathlib.Tactic.ByContra
import MlibDevel.Jam.CslRoundTrip

/-!
# Searching a compact sorted list by payload (`csl_find_by_payload`)

`csl_find_by_payload` walks through a list with the iterator of `csl_iter_next` and stops at the
entries whose payload byte `plidx` is `plval`.  It keeps its place in the iterator's static
variables, so it can be mixed with the calls of an iteration.

* `cslFindAll_open` — the entries a whole search stops at and the bytes it looks at
* `selects_iff` — the range check lets `plidx = pl_len` through, and the byte it then looks at is
  the head size of the next entry
-/

namespace MlibDevel.Jam

open Lib

/-! ## The code -/

/--
What a call of `csl_find_by_payload` leaves: the static variables, the pointer it returns and the
pointers `payload + plidx` it has read through.
-/
structure FindResult where
  iter : CslIter
  payload : Option (List UInt8)
  reads : List (List UInt8)

/--
`while((payload = csl_iter_next(matched_key))) { if(payload[plidx] == plval) return payload; }`
-/
def findPayload (s : CslIter) (plidx plval : UInt8) : Option FindResult :=
  match _h : cslIterNext s with
  | none => none
  | some (s', none) => some ⟨s', none, []⟩
  | some (s', some payload) =>
    match payload.drop plidx.toNat with
    | [] => none
    | b :: rest =>
      if b = plval then some ⟨s', some payload, [b :: rest]⟩
      else (findPayload s' plidx plval).map fun r => { r with reads := (b :: rest) :: r.reads }
termination_by s.pcsl.length
decreasing_by exact cslIterNext_length _h

/-- The next entry of a search, a new one when `csl` is not NULL. -/
def cslFindByPayload (s : CslIter) (csl : Option (List UInt8)) (plidx plval : UInt8) :
    Option FindResult := do
  let s ← match csl with
    | some csl => cslIterInit s csl
    | none => some s
  if plidx > s.plLen then return ⟨s, none, []⟩
  findPayload s plidx plval

/-! ## Encoded lists -/

/--
A list as it is encoded: names in order, none of them empty, and payloads of one length.  The sizes
fit a byte and a name is a C string.
-/
structure CslList where
  plLen : UInt8
  entries : List Entry
  fits : ∀ e ∈ entries, e.Fits plLen ∧ 0 ∉ e.name
  named : ∀ e ∈ entries, e.name ≠ []
  sorted : (entries.map Entry.name).Pairwise (· ≤ ·)

/-- No name occurs twice. -/
def CslList.Distinct (l : CslList) : Prop := (l.entries.map Entry.name).Nodup

/-- The bytes of a list.  Its first head size field holds the payload length. -/
def CslList.bytes (l : CslList) : List UInt8 :=
  l.plLen :: (frontCode [] l.entries ++ [0, 0]).tail

/-- The pointer to the payload of an entry, when `es` and then `z` follow it. -/
def payloadPtr (z : List UInt8) (e : Entry) (es : List Entry) : List UInt8 :=
  e.payload ++ (frontCode e.name es ++ z)

/-- The pointers to the payload bytes of a list. -/
def payloadBytes : List Entry → List (List UInt8)
  | [] => []
  | e :: es =>
    (List.range e.payload.length).map (fun i => (payloadPtr [0, 0] e es).drop i) ++ payloadBytes es

theorem cslBytes_eq_tail : ∀ {es : List Entry}, es ≠ [] →
    cslBytes es ++ [0, 0] = UInt8.ofNat payloadLength :: (frontCode [] es ++ [0, 0]).tail
  | [], h => absurd rfl h
  | _ :: _, _ => rfl

/-- What the encoding loop writes is an encoded list of the sorted lines. -/
theorem encodeCsl_cslList {lines : List Line} (hok : ∀ l ∈ lines, l.Encodable) :
    ∃ l : CslList, encodeCsl lines = some l.bytes ∧
      l.entries = (sortLines lines).map Line.entry ∧
      l.plLen = if lines = [] then 0 else UInt8.ofNat payloadLength := by
  have hok' : ∀ l ∈ sortLines lines, l.Encodable := fun l hl => hok l (mem_sortLines.mp hl)
  obtain ⟨out, hout⟩ := encodeLoop_isSome hok' [] []
  have henc : encodeCsl lines = some (cslBytes ((sortLines lines).map Line.entry) ++ [0, 0]) := by
    simp [encodeCsl, hout, encodeLoop_start_eq hout]
  have hentry : ∀ e ∈ (sortLines lines).map Line.entry,
      (e.Fits (UInt8.ofNat payloadLength) ∧ 0 ∉ e.name) ∧ e.name ≠ [] := by
    intro e he
    obtain ⟨l, hl, rfl⟩ := List.mem_map.mp he
    exact ⟨⟨⟨rfl, (hok' l hl).name_le⟩, fun hz => ((hok' l hl).name_ascii 0 hz).1 rfl⟩,
      (hok' l hl).name_ne⟩
  have hsort : (((sortLines lines).map Line.entry).map Entry.name).Pairwise (· ≤ ·) := by
    rw [List.map_map]
    exact List.pairwise_map.mpr
      ((List.pairwise_insertionSort (· ≤ ·) lines).imp Line.dev_le_of_le)
  cases hlines : lines with
  | nil =>
    subst hlines
    exact ⟨⟨0, [], by simp, by simp, by simp⟩, rfl, rfl, by simp⟩
  | cons l₀ ls =>
    rw [← hlines, if_neg (by rw [hlines]; simp)]
    refine ⟨⟨_, _, fun e he => (hentry e he).1, fun e he => (hentry e he).2, hsort⟩, ?_, rfl, rfl⟩
    have hne : (sortLines lines).map Line.entry ≠ [] := by
      have hmem : l₀ ∈ sortLines lines := mem_sortLines.mpr (by rw [hlines]; simp)
      exact List.ne_nil_of_mem (List.mem_map_of_mem hmem)
    rw [henc, cslBytes_eq_tail hne]
    rfl

/-- The entries up to the first one that repeats the name before it. -/
def CslList.first (l : CslList) : List Entry := distinctRun [] l.entries

theorem CslList.Distinct.first_eq {l : CslList} (h : l.Distinct) : l.first = l.entries := by
  have hnd : ([] :: l.entries.map Entry.name).Nodup := by
    refine List.nodup_cons.mpr ⟨fun hmem => ?_, h⟩
    obtain ⟨e, he, hnil⟩ := List.mem_map.mp hmem
    exact l.named e he hnil
  exact distinctRun_of_nodup hnd

theorem CslList.first_strict (l : CslList) :
    ([] :: l.first.map Entry.name).Pairwise (· < ·) := by
  have hsort : ([] :: l.entries.map Entry.name).Pairwise (· ≤ ·) :=
    List.pairwise_cons.mpr ⟨fun _ _ => not_lt.mp (List.not_lt_nil _), l.sorted⟩
  refine List.pairwise_cons.mpr ⟨fun name hname => ?_, ?_⟩
  · obtain ⟨e, he, rfl⟩ := List.mem_map.mp hname
    obtain ⟨c, cs, hcons⟩ := List.exists_cons_of_ne_nil (l.named e (mem_of_mem_distinctRun he))
    rw [hcons]
    exact List.nil_lt_cons c cs
  · exact List.pairwise_map.mpr (distinctRun_strict hsort)

/-! ## An iteration that is under way -/

/-- The iterator stands in front of the entries `es`, and `z` follows these. -/
structure IterOpen (z : List UInt8) (es : List Entry) (s : CslIter) : Prop where
  fits : ∀ e ∈ es, e.Fits s.plLen ∧ 0 ∉ e.name
  place : ∃ prev : List UInt8, prev.length ≤ 255 ∧ (prev :: es.map Entry.name).Pairwise (· < ·) ∧
    IterAt prev (frontCode prev es ++ z) s

/-- What follows the first entries: the terminator, or an entry with an empty tail. -/
theorem CslList.bytes_first (l : CslList) : ∃ head z,
    l.bytes = l.plLen :: (frontCode [] l.first ++ head :: 0 :: z).tail ∧
      (l.first = [] → head = 0) ∧ (l.Distinct → head :: 0 :: z = [0, 0]) := by
  by_cases hd : l.Distinct
  · refine ⟨0, [], ?_, fun _ => rfl, fun _ => rfl⟩
    rw [hd.first_eq]
    rfl
  · obtain ⟨head, z, hz⟩ := frontCode_distinctRun l.entries []
    refine ⟨head, z, by rw [CslList.bytes, hz]; rfl, fun hnil => ?_, fun h => absurd h hd⟩
    cases hes : l.entries with
    | nil => exact absurd (by rw [CslList.Distinct, hes]; simp) hd
    | cons e es =>
      rw [CslList.first, hes, distinctRun, if_neg (l.named e (by rw [hes]; simp))] at hnil
      simp at hnil

/-- Whatever the iterator was used for, `csl_iter_init` puts it in front of the first entries. -/
theorem cslIterInit_open (s : CslIter) (l : CslList) : ∃ s' head z,
    cslIterInit s l.bytes = some s' ∧ s'.plLen = l.plLen ∧
      IterOpen (head :: 0 :: z) l.first s' ∧ (l.Distinct → head :: 0 :: z = [0, 0]) := by
  obtain ⟨head, z, hbytes, hhead, hdist⟩ := l.bytes_first
  obtain ⟨s', hs, hpl, hat⟩ := cslIterInit_cons s l.plLen
    (frontCode [] l.first ++ head :: 0 :: z).tail
  refine ⟨s', head, z, by rw [hbytes]; exact hs, hpl, ⟨?_, [], by simp, l.first_strict, ?_⟩, hdist⟩
  · rw [hpl]
    exact fun e he => l.fits e (mem_of_mem_distinctRun he)
  · cases hes : l.first with
    | nil =>
      rw [hes] at hat
      rw [hhead hes] at hat ⊢
      exact hat
    | cons e es =>
      rw [hes, frontCode, List.cons_append, List.tail_cons] at hat
      rw [frontCode, lcp_nil_left]
      exact hat

/-- At an empty tail `csl_iter_next` reports the end and leaves its pointer behind it. -/
theorem cslIterNext_open_nil {head : UInt8} {z : List UInt8} {s : CslIter}
    (h : IterOpen (head :: 0 :: z) [] s) :
    cslIterNext s = some ({ s with pcsl := z }, none) := by
  obtain ⟨prev, -, -, hat⟩ := h.place
  exact cslIterNext_zero (List.cons.inj hat.stream).2

/-- In front of an entry it returns the entry's payload and leaves its name in `csl_key`. -/
theorem cslIterNext_open_cons {z : List UInt8} {s : CslIter} {e : Entry} {es : List Entry}
    (hz : z ≠ []) (h : IterOpen z (e :: es) s) :
    ∃ s', cslIterNext s = some (s', some (payloadPtr z e es)) ∧ s'.plLen = s.plLen ∧
      cstr s'.key = e.name ∧ IterOpen z es s' := by
  obtain ⟨prev, hprev, hsort, hat⟩ := h.place
  obtain ⟨hfit, hnul⟩ := h.fits e List.mem_cons_self
  rw [List.map_cons] at hsort
  obtain ⟨hlt, hsort'⟩ := List.pairwise_cons.mp hsort
  obtain ⟨s', hnext, hpl, hat'⟩ := cslIterNext_entry hfit (hlt e.name List.mem_cons_self) hprev
    (by simp [hz]) hat
  obtain ⟨junk, hkey⟩ := hat'.key
  refine ⟨s', hnext, hpl, ?_, fun f hf => ?_, e.name, hfit.2, hsort', hat'⟩
  · rw [hkey, cstr_append_zero, cstr_eq_self hnul]
  · rw [hpl]
    exact h.fits f (List.mem_cons_of_mem _ hf)

/-- A payload index the range check lets through stays inside what follows. -/
theorem payloadPtr_drop {z : List UInt8} {plLen plidx : UInt8} {e : Entry} (es : List Entry)
    (hz : z ≠ []) (hfit : e.Fits plLen) (hle : ¬ plidx > plLen) :
    ∃ b rest, (payloadPtr z e es).drop plidx.toNat = b :: rest := by
  refine List.exists_cons_of_ne_nil fun h => ?_
  have hlen := congrArg List.length h
  have hpl := hfit.1
  have hpos := List.length_pos_iff.mpr hz
  rw [gt_iff_lt, UInt8.lt_iff_toNat_lt] at hle
  simp [payloadPtr] at hlen
  omega

/-- Inside the payload the byte looked at is the entry's own. -/
theorem deref_payloadPtr_drop (z : List UInt8) {e : Entry} (es : List Entry) {i : Nat}
    (hi : i < e.payload.length) (b : UInt8) :
    deref ((payloadPtr z e es).drop i) = b ↔ e.payload[i]? = some b := by
  rw [payloadPtr, List.drop_append_of_le_length (Nat.le_of_lt hi), List.drop_eq_getElem_cons hi,
    List.cons_append, deref_cons, List.getElem?_eq_getElem hi, Option.some.injEq]

/-! ## A whole search -/

theorem findPayload_end {s s' : CslIter} (plidx plval : UInt8)
    (h : cslIterNext s = some (s', none)) : findPayload s plidx plval = some ⟨s', none, []⟩ := by
  rw [findPayload]
  split <;> simp_all

theorem findPayload_hit {s s' : CslIter} {p rest : List UInt8} {plidx plval : UInt8}
    (h : cslIterNext s = some (s', some p)) (hd : p.drop plidx.toNat = plval :: rest) :
    findPayload s plidx plval = some ⟨s', some p, [plval :: rest]⟩ := by
  rw [findPayload]
  split <;> simp_all

theorem findPayload_miss {s s' : CslIter} {p rest : List UInt8} {b plidx plval : UInt8}
    (h : cslIterNext s = some (s', some p)) (hd : p.drop plidx.toNat = b :: rest)
    (hb : b ≠ plval) :
    findPayload s plidx plval
      = (findPayload s' plidx plval).map fun r => { r with reads := (b :: rest) :: r.reads } := by
  rw [findPayload]
  split <;> simp_all

/-- What the search does at an entry, for an index inside the payload. -/
theorem findPayload_open_cons {plidx : UInt8} (plval : UInt8) {z : List UInt8} (hz : z ≠ [])
    {e : Entry} {es : List Entry} {s : CslIter} (hs : IterOpen z (e :: es) s)
    (hlt : plidx < s.plLen) :
    ∃ s' q, s'.plLen = s.plLen ∧ cstr s'.key = e.name ∧ IterOpen z es s' ∧
      findPayload s plidx plval =
        if e.payload[plidx.toNat]? = some plval then some ⟨s', some (payloadPtr z e es), [q]⟩
        else (findPayload s' plidx plval).map fun r => { r with reads := q :: r.reads } := by
  obtain ⟨s', hnext, hpl, hkey, hs'⟩ := cslIterNext_open_cons hz hs
  have hfit := (hs.fits e List.mem_cons_self).1
  obtain ⟨b, rest, hdrop⟩ := payloadPtr_drop es hz hfit (not_lt.mpr (le_of_lt hlt))
  have hi : plidx.toNat < e.payload.length := by
    rw [hfit.1]
    exact UInt8.lt_iff_toNat_lt.mp hlt
  have hbyte := deref_payloadPtr_drop z es hi plval
  rw [hdrop, deref_cons] at hbyte
  refine ⟨s', b :: rest, hpl, hkey, hs', ?_⟩
  split
  · next hb =>
    obtain rfl := hbyte.mpr hb
    exact findPayload_hit hnext hdrop
  · next hb => exact findPayload_miss hnext hdrop fun h => hb (hbyte.mp h)

/-- A search under way stops at the first entry that matches. -/
theorem findPayload_first (plidx plval : UInt8) {z : List UInt8} (hz : z ≠ []) {e : Entry}
    {more : List Entry} : ∀ {es : List Entry} {s : CslIter}, IterOpen z es s → plidx < s.plLen →
    es.filter (fun e => e.payload[plidx.toNat]? = some plval) = e :: more →
    ∃ s' post reads, findPayload s plidx plval = some ⟨s', some (payloadPtr z e post), reads⟩ ∧
      s'.plLen = s.plLen ∧ cstr s'.key = e.name ∧ IterOpen z post s' ∧
      post.filter (fun e => e.payload[plidx.toNat]? = some plval) = more
  | [], s, _, _, hfilter => by simp at hfilter
  | f :: es, s, hs, hlt, hfilter => by
    obtain ⟨s', q, hpl, hkey, hs', hfind⟩ := findPayload_open_cons plval hz hs hlt
    rw [List.filter_cons] at hfilter
    by_cases hf : f.payload[plidx.toNat]? = some plval
    · rw [if_pos (by simpa using hf)] at hfilter
      obtain ⟨rfl, hmore⟩ := List.cons.inj hfilter
      rw [if_pos hf] at hfind
      exact ⟨s', es, _, hfind, hpl, hkey, hs', hmore⟩
    · rw [if_neg (by simpa using hf)] at hfilter
      obtain ⟨s'', post, reads, hrest, hpl', hkey', hopen, hmore⟩ :=
        findPayload_first plidx plval hz hs' (by rw [hpl]; exact hlt) hfilter
      refine ⟨s'', post, q :: reads, ?_, hpl'.trans hpl, hkey', hopen, hmore⟩
      rw [hfind, if_neg hf, hrest, Option.map_some]

/-- When none of them matches it runs to the end. -/
theorem findPayload_nothing (plidx plval : UInt8) {head : UInt8} {z : List UInt8} :
    ∀ {es : List Entry} {s : CslIter}, IterOpen (head :: 0 :: z) es s → plidx < s.plLen →
    es.filter (fun e => e.payload[plidx.toNat]? = some plval) = [] →
    ∃ s' reads, findPayload s plidx plval = some ⟨s', none, reads⟩
  | [], s, hs, _, _ => ⟨_, _, findPayload_end plidx plval (cslIterNext_open_nil hs)⟩
  | f :: es, s, hs, hlt, hfilter => by
    obtain ⟨s', q, hpl, -, hs', hfind⟩ :=
      findPayload_open_cons plval (List.cons_ne_nil _ _) hs hlt
    rw [List.filter_cons] at hfilter
    by_cases hf : f.payload[plidx.toNat]? = some plval
    · rw [if_pos (by simpa using hf)] at hfilter
      cases hfilter
    · rw [if_neg (by simpa using hf)] at hfilter
      obtain ⟨s'', reads, hrest⟩ :=
        findPayload_nothing plidx plval hs' (by rw [hpl]; exact hlt) hfilter
      refine ⟨s'', q :: reads, ?_⟩
      rw [hfind, if_neg hf, hrest, Option.map_some]

theorem findPayload_length {s : CslIter} {plidx plval : UInt8} {r : FindResult} {p : List UInt8}
    (h : findPayload s plidx plval = some r) (hp : r.payload = some p) :
    r.iter.pcsl.length < s.pcsl.length := by
  fun_induction findPayload s plidx plval generalizing r with
  | case1 => simp at h
  | case2 => simp [← Option.some.inj h] at hp
  | case3 => simp at h
  | case4 s s' payload hnext rest hd =>
    rw [← Option.some.inj h]
    exact cslIterNext_length hnext
  | case5 s s' payload hnext b rest hd hb ih =>
    obtain ⟨r', hr', rfl⟩ := Option.map_eq_some_iff.mp h
    exact (ih hr' hp).trans (cslIterNext_length hnext)

theorem cslFindByPayload_none (s : CslIter) (plidx plval : UInt8) :
    cslFindByPayload s none plidx plval
      = if plidx > s.plLen then some ⟨s, none, []⟩ else findPayload s plidx plval := rfl

theorem cslFindByPayload_some (s : CslIter) (csl : List UInt8) (plidx plval : UInt8) :
    cslFindByPayload s (some csl) plidx plval
      = (cslIterInit s csl).bind fun s => cslFindByPayload s none plidx plval := rfl

theorem cslFindByPayload_none_length {s : CslIter} {plidx plval : UInt8} {r : FindResult}
    {p : List UInt8} (h : cslFindByPayload s none plidx plval = some r)
    (hp : r.payload = some p) : r.iter.pcsl.length < s.pcsl.length := by
  rw [cslFindByPayload_none] at h
  split at h
  · simp [← Option.some.inj h] at hp
  · exact findPayload_length h hp

/-- The entries a search has returned, by name and payload, and the pointers it has read through. -/
structure Search where
  entries : List Entry
  reads : List (List UInt8)

/-- `csl_find_by_payload(NULL, plidx, plval, &key)` until it returns NULL. -/
def cslFindRest (s : CslIter) (plidx plval : UInt8) : Option Search :=
  match _h : cslFindByPayload s none plidx plval with
  | none => none
  | some ⟨_, none, reads⟩ => some ⟨[], reads⟩
  | some ⟨s', some p, reads⟩ =>
    (cslFindRest s' plidx plval).map fun r =>
      ⟨⟨cstr s'.key, p.take s'.plLen.toNat⟩ :: r.entries, reads ++ r.reads⟩
termination_by s.pcsl.length
decreasing_by exact cslFindByPayload_none_length _h rfl

/-- A search from its first call, which is given the list. -/
def cslFindAll (s : CslIter) (csl : List UInt8) (plidx plval : UInt8) : Option Search :=
  match cslFindByPayload s (some csl) plidx plval with
  | none => none
  | some ⟨_, none, reads⟩ => some ⟨[], reads⟩
  | some ⟨s', some p, reads⟩ =>
    (cslFindRest s' plidx plval).map fun r =>
      ⟨⟨cstr s'.key, p.take s'.plLen.toNat⟩ :: r.entries, reads ++ r.reads⟩

theorem cslFindRest_error {s : CslIter} {plidx plval : UInt8}
    (h : cslFindByPayload s none plidx plval = none) : cslFindRest s plidx plval = none := by
  rw [cslFindRest]
  split <;> simp_all

theorem cslFindRest_null {s s' : CslIter} {plidx plval : UInt8} {reads : List (List UInt8)}
    (h : cslFindByPayload s none plidx plval = some ⟨s', none, reads⟩) :
    cslFindRest s plidx plval = some ⟨[], reads⟩ := by
  rw [cslFindRest]
  split <;> simp_all

theorem cslFindRest_found {s s' : CslIter} {plidx plval : UInt8} {p : List UInt8}
    {reads : List (List UInt8)}
    (h : cslFindByPayload s none plidx plval = some ⟨s', some p, reads⟩) :
    cslFindRest s plidx plval = (cslFindRest s' plidx plval).map fun r =>
      ⟨⟨cstr s'.key, p.take s'.plLen.toNat⟩ :: r.entries, reads ++ r.reads⟩ := by
  rw [cslFindRest]
  split <;> simp_all

/-- The first call is `csl_iter_init` and then a call like the others. -/
theorem cslFindAll_eq {s s' : CslIter} {csl : List UInt8} (plidx plval : UInt8)
    (h : cslIterInit s csl = some s') :
    cslFindAll s csl plidx plval = cslFindRest s' plidx plval := by
  rw [cslFindAll, cslFindByPayload_some, h, Option.bind_some]
  cases hf : cslFindByPayload s' none plidx plval with
  | none => rw [cslFindRest_error hf]
  | some r =>
    obtain ⟨s'', p, reads⟩ := r
    cases p with
    | none => rw [cslFindRest_null hf]
    | some p => rw [cslFindRest_found hf]

/-- An entry that is passed over inside a call: the search is that from behind it. -/
theorem cslFindRest_miss {s s' : CslIter} {plidx plval : UInt8} {q : List UInt8}
    (h : cslFindByPayload s none plidx plval = (cslFindByPayload s' none plidx plval).map fun r =>
      { r with reads := q :: r.reads }) :
    cslFindRest s plidx plval
      = (cslFindRest s' plidx plval).map fun r => ⟨r.entries, q :: r.reads⟩ := by
  cases hf : cslFindByPayload s' none plidx plval with
  | none =>
    rw [hf] at h
    rw [cslFindRest_error hf, cslFindRest_error h, Option.map_none]
  | some r =>
    obtain ⟨s'', p, reads⟩ := r
    rw [hf] at h
    cases p with
    | none => rw [cslFindRest_null hf, cslFindRest_null h, Option.map_some]
    | some p =>
      rw [cslFindRest_found hf, cslFindRest_found h, Option.map_map]
      rfl

/-! ## The range check -/

/-- The entries at which a search with an index the range check lets through stops. -/
def hits (plidx plval : UInt8) : List Entry → List Entry
  | [] => []
  | e :: es =>
    if deref ((payloadPtr [0, 0] e es).drop plidx.toNat) = plval then e :: hits plidx plval es
    else hits plidx plval es

/-- The bytes it looks at. -/
def lookedAt (plidx : UInt8) : List Entry → List (List UInt8)
  | [] => []
  | e :: es => (payloadPtr [0, 0] e es).drop plidx.toNat :: lookedAt plidx es

/-- A search from the entries `es` on, for every index that is not above the payload length. -/
theorem cslFindRest_open (plidx plval : UInt8) : ∀ {es : List Entry} {s : CslIter},
    IterOpen [0, 0] es s → ¬ plidx > s.plLen →
    cslFindRest s plidx plval = some ⟨hits plidx plval es, lookedAt plidx es⟩
  | [], s, hs, hle => by
    have hfind := cslFindByPayload_none s plidx plval
    rw [if_neg hle, findPayload_end plidx plval (cslIterNext_open_nil hs)] at hfind
    exact cslFindRest_null hfind
  | e :: es, s, hs, hle => by
    obtain ⟨s', hnext, hpl, hkey, hs'⟩ := cslIterNext_open_cons (by simp) hs
    have hfit := (hs.fits e List.mem_cons_self).1
    obtain ⟨b, rest, hdrop⟩ := payloadPtr_drop (z := [0, 0]) es (by simp) hfit hle
    have ih := cslFindRest_open plidx plval hs' (by rw [hpl]; exact hle)
    have hfind := cslFindByPayload_none s plidx plval
    rw [if_neg hle] at hfind
    rw [hits, lookedAt, hdrop, deref_cons]
    by_cases hb : b = plval
    · subst hb
      have htake : (payloadPtr [0, 0] e es).take s'.plLen.toNat = e.payload := by
        rw [hpl]
        exact List.take_left' hfit.1
      rw [findPayload_hit hnext hdrop] at hfind
      rw [cslFindRest_found hfind, ih, if_pos rfl, hkey, htake]
      rfl
    · have hfind' := cslFindByPayload_none s' plidx plval
      rw [if_neg (by rw [hpl]; exact hle)] at hfind'
      rw [findPayload_miss hnext hdrop hb, ← hfind'] at hfind
      rw [cslFindRest_miss hfind, ih, if_neg hb, Option.map_some]

theorem hits_eq_filter {plLen plidx : UInt8} (plval : UInt8) (hlt : plidx < plLen) :
    ∀ {es : List Entry}, (∀ e ∈ es, e.Fits plLen) →
    hits plidx plval es = es.filter fun e => e.payload[plidx.toNat]? = some plval
  | [], _ => rfl
  | e :: es, hfit => by
    have hi : plidx.toNat < e.payload.length := by
      rw [(hfit e List.mem_cons_self).1]
      exact UInt8.lt_iff_toNat_lt.mp hlt
    have ih := hits_eq_filter plval hlt fun f hf => hfit f (List.mem_cons_of_mem _ hf)
    have hiff := deref_payloadPtr_drop [0, 0] es hi plval
    rw [hits, ih, List.filter_cons]
    by_cases h : e.payload[plidx.toNat]? = some plval
    · rw [if_pos (hiff.mpr h), if_pos (by simpa using h)]
    · rw [if_neg (fun h' => h (hiff.mp h')), if_neg (by simpa using h)]

/-- The payload bytes of the entries behind a name lie behind their first head size. -/
theorem payloadBytes_length (prev : List UInt8) {q : List UInt8} : ∀ {es : List Entry},
    q ∈ payloadBytes es → q.length < (frontCode prev es ++ [0, 0]).length
  | [], h => by simp [payloadBytes] at h
  | e :: es, h => by
    rcases List.mem_append.mp h with h | h
    · obtain ⟨i, -, rfl⟩ := List.mem_map.mp h
      simp [payloadPtr, frontCode, entryBody]
      omega
    · have ih := payloadBytes_length e.name h
      simp [frontCode, entryBody] at ih ⊢
      omega

/-- The byte behind the first payload is none of the payload bytes. -/
theorem payloadPtr_drop_not_mem {plLen : UInt8} {e : Entry} {es : List Entry}
    (hfit : e.Fits plLen) : (payloadPtr [0, 0] e es).drop plLen.toNat ∉ payloadBytes (e :: es) := by
  have hdrop : (payloadPtr [0, 0] e es).drop plLen.toNat = frontCode e.name es ++ [0, 0] :=
    List.drop_left' hfit.1
  rw [hdrop]
  intro h
  rcases List.mem_append.mp h with h | h
  · obtain ⟨i, hi, heq⟩ := List.mem_map.mp h
    have hlen := congrArg List.length heq
    have hi' := List.mem_range.mp hi
    simp [payloadPtr] at hlen
    omega
  · exact Nat.lt_irrefl _ (payloadBytes_length e.name h)

/--
What a search by payload is for: whatever was searched before, its results are the entries whose
payload has the byte `plval` at `plidx`, in order and with their names.  With an index outside the
payload there is none, and only bytes of payloads are looked at.
-/
def CslList.Selects (l : CslList) (plidx plval : UInt8) : Prop :=
  ∀ s : CslIter, ∃ r, cslFindAll s l.bytes plidx plval = some r ∧
    r.entries = l.entries.filter (fun e => e.payload[plidx.toNat]? = some plval) ∧
    (l.plLen ≤ plidx → r.entries = [] ∧ ∀ q ∈ r.reads, q ∈ payloadBytes l.entries)

/-- A search of a list, from `csl_iter_init` on. -/
theorem cslFindAll_bytes (s : CslIter) {l : CslList} (hd : l.Distinct) (plidx plval : UInt8) :
    cslFindAll s l.bytes plidx plval =
      some (if plidx > l.plLen then ⟨[], []⟩
        else ⟨hits plidx plval l.entries, lookedAt plidx l.entries⟩) := by
  obtain ⟨s', head, z, hinit, hpl, hopen, hz⟩ := cslIterInit_open s l
  rw [hz hd, hd.first_eq] at hopen
  rw [cslFindAll_eq plidx plval hinit]
  by_cases hgt : plidx > l.plLen
  · have hfind := cslFindByPayload_none s' plidx plval
    rw [hpl, if_pos hgt] at hfind
    rw [cslFindRest_null hfind, if_pos hgt]
  · rw [cslFindRest_open plidx plval hopen (by rw [hpl]; exact hgt), if_neg hgt]

/-- No payload has a byte at an index that is not below its length. -/
theorem CslList.filter_eq_nil (l : CslList) {plidx : UInt8} (plval : UInt8)
    (hle : l.plLen ≤ plidx) :
    l.entries.filter (fun e => e.payload[plidx.toNat]? = some plval) = [] := by
  rw [List.filter_eq_nil_iff]
  intro e he
  have hlen := (l.fits e he).1.1
  have hle' := UInt8.le_iff_toNat_le.mp hle
  rw [List.getElem?_eq_none (by omega)]
  simp

/-- With the payload length for an index, the byte behind the first payload is looked at. -/
theorem CslList.not_selects {l : CslList} (hd : l.Distinct) (plval : UInt8)
    (hne : l.entries ≠ []) : ¬ l.Selects l.plLen plval := by
  intro hsel
  obtain ⟨r, hr, -, hout⟩ := hsel CslIter.zero
  rw [cslFindAll_bytes _ hd, if_neg (lt_irrefl _)] at hr
  obtain ⟨e, es, hes⟩ := List.exists_cons_of_ne_nil hne
  have hmem := (hout (le_refl _)).2 ((payloadPtr [0, 0] e es).drop l.plLen.toNat)
  rw [← Option.some.inj hr, hes] at hmem
  have hfit := (l.fits e (by rw [hes]; exact List.mem_cons_self)).1
  exact payloadPtr_drop_not_mem hfit (hmem List.mem_cons_self)

/--
**A search by payload is right for every index but the payload length.**

The range check is `plidx > csl_pl_len`, so the payload length itself passes it.  The byte then
compared is the head size of the next entry.
-/
theorem selects_iff {l : CslList} (hd : l.Distinct) (plidx plval : UInt8) :
    l.Selects plidx plval ↔ plidx ≠ l.plLen ∨ l.entries = [] := by
  constructor
  · intro hsel
    by_contra hcon
    obtain ⟨heq, hne⟩ := not_or.mp hcon
    obtain rfl := not_not.mp heq
    exact CslList.not_selects hd plval hne hsel
  · intro hor s
    refine ⟨_, cslFindAll_bytes s hd plidx plval, ?_⟩
    rcases lt_trichotomy plidx l.plLen with hlt | heq | hgt
    · rw [if_neg (not_lt.mpr (le_of_lt hlt))]
      exact ⟨hits_eq_filter plval hlt fun e he => (l.fits e he).1,
        fun hle => absurd hlt (not_lt.mpr hle)⟩
    · have hnil : l.entries = [] := hor.resolve_left (not_not.mpr heq)
      rw [if_neg (by rw [heq]; exact lt_irrefl _), hnil]
      exact ⟨rfl, fun _ => ⟨rfl, by simp [lookedAt]⟩⟩
    · rw [if_pos hgt]
      exact ⟨(l.filter_eq_nil plval (le_of_lt hgt)).symm, fun _ => ⟨rfl, by simp⟩⟩

/-- The first two entries of the example in `csl.c`, with one-byte payloads. -/
def ramList : CslList where
  plLen := 1
  entries := [⟨ascii "adc16_wb_ram1", [1]⟩, ⟨ascii "adc16_wb_ram2", [2]⟩]
  fits := by
    simp only [List.mem_cons, List.not_mem_nil, or_false]
    rintro e (rfl | rfl) <;> exact ⟨⟨by decide, by decide⟩, by decide⟩
  named := by
    simp only [List.mem_cons, List.not_mem_nil, or_false]
    rintro e (rfl | rfl) <;> decide
  sorted := by decide

theorem ramList_distinct : ramList.Distinct := by
  show (_ : List (List UInt8)).Nodup
  decide

theorem ramList_selects : ramList.Selects 0 2 :=
  (selects_iff ramList_distinct 0 2).mpr (Or.inl (by decide))

/-- Asked for the payload byte 1 of one-byte payloads, the search takes the head size 12 for it. -/
theorem ramList_not_selects :
    (∃ r, cslFindAll CslIter.zero ramList.bytes 1 12 = some r ∧
      r.entries.map Entry.name = [ascii "adc16_wb_ram1"]) ∧ ¬ ramList.Selects 1 12 := by
  refine ⟨⟨_, cslFindAll_bytes _ ramList_distinct _ _, ?_⟩, ?_⟩
  · decide
  · exact CslList.not_selects ramList_distinct 12 (by simp [ramList])

end MlibDevel.Jam
