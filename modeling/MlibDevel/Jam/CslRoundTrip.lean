import MlibDevel.Jam.CslIter

/-!
# Decoding a compact sorted list undoes encoding it

`cslIterAll_eq` says which names an iteration visits.  Here the payloads are followed as well: for
names that are distinct the iteration gives back the entries, in sorted order, whatever the static
variables held before `csl_iter_init`.
-/

namespace MlibDevel.Jam

open Lib

/--
`csl_iter_next` until it returns NULL: for each call the C string in `csl_key` and the payload
bytes at the pointer returned.
-/
def cslIterEntries (s : CslIter) : Option (List Entry) :=
  match _h : cslIterNext s with
  | none => none
  | some (_, none) => some []
  | some (s', some p) =>
    (cslIterEntries s').map fun es => ⟨cstr s'.key, p.take s'.plLen.toNat⟩ :: es
termination_by s.pcsl.length
decreasing_by exact cslIterNext_length _h

theorem cslIterEntries_step {s s' : CslIter} {p : List UInt8}
    (h : cslIterNext s = some (s', some p)) :
    cslIterEntries s =
      (cslIterEntries s').map fun es => ⟨cstr s'.key, p.take s'.plLen.toNat⟩ :: es := by
  rw [cslIterEntries]
  split <;> simp_all

theorem cslIterEntries_stop {s s' : CslIter} (h : cslIterNext s = some (s', none)) :
    cslIterEntries s = some [] := by
  rw [cslIterEntries]
  split <;> simp_all

/-- From the name in the buffer on, the entries behind it are decoded one after another. -/
theorem cslIterEntries_eq : ∀ (es : List Entry) (prev : List UInt8) (s : CslIter),
    (∀ e ∈ es, e.Fits s.plLen ∧ 0 ∉ e.name) → prev.length ≤ 255 →
    (prev :: es.map Entry.name).Pairwise (· < ·) →
    IterAt prev (frontCode prev es ++ [0, 0]) s →
    cslIterEntries s = some es
  | [], prev, s, _, _, _, hs => by
    obtain ⟨s', h⟩ := cslIterNext_end (z := []) hs
    exact cslIterEntries_stop h
  | e :: es, prev, s, hok, hprev, hsort, hs => by
    obtain ⟨hfit, hnul⟩ := hok e List.mem_cons_self
    rw [List.map_cons] at hsort
    obtain ⟨hlt, hsort'⟩ := List.pairwise_cons.mp hsort
    obtain ⟨s', hnext, hpl, hs'⟩ := cslIterNext_entry hfit (hlt e.name List.mem_cons_self) hprev
      (by simp) hs
    have ih := cslIterEntries_eq es e.name s'
      (fun f hf => hpl ▸ hok f (List.mem_cons_of_mem _ hf)) hfit.2 hsort' hs'
    obtain ⟨junk, hkey⟩ := hs'.key
    have htake : (e.payload ++ (frontCode e.name es ++ [0, 0])).take s'.plLen.toNat =
        e.payload := by
      rw [hpl]
      exact List.take_left' hfit.1
    rw [cslIterEntries_step hnext, ih, Option.map_some, hkey, cstr_append_zero, cstr_eq_self hnul,
      htake]

/-- The same for a whole list, from `csl_iter_init` on. -/
theorem cslIterEntries_cslBytes {es : List Entry} (s : CslIter)
    (hok : ∀ e ∈ es, e.Fits (UInt8.ofNat payloadLength) ∧ 0 ∉ e.name ∧ e.name ≠ [])
    (hsort : (es.map Entry.name).Pairwise (· < ·)) :
    (cslIterInit s (cslBytes es ++ [0, 0])).bind cslIterEntries = some es := by
  cases es with
  | nil =>
    obtain ⟨s', hs, -, hat⟩ := cslIterInit_cons s 0 [0]
    rw [cslBytes, List.nil_append, hs, Option.bind_some]
    exact cslIterEntries_eq [] [] s' (by simp) (by simp) (by simp) hat
  | cons e es =>
    obtain ⟨s', hs, hpl, hat⟩ := cslIterInit_cons s (UInt8.ofNat payloadLength)
      (entryBody [] e ++ frontCode e.name es ++ [0, 0])
    have hfirst : ∀ name ∈ (e :: es).map Entry.name, [] < name := by
      intro name hname
      obtain ⟨f, hf, rfl⟩ := List.mem_map.mp hname
      obtain ⟨c, cs, hcons⟩ := List.exists_cons_of_ne_nil (hok f hf).2.2
      rw [hcons]
      exact List.nil_lt_cons c cs
    rw [cslBytes, List.cons_append, hs, Option.bind_some]
    refine cslIterEntries_eq (e :: es) [] s' ?_ (by simp)
      (List.pairwise_cons.mpr ⟨hfirst, hsort⟩) ?_
    · intro f hf
      rw [hpl]
      exact ⟨(hok f hf).1, (hok f hf).2.1⟩
    · rw [frontCode, lcp_nil_left]
      exact hat

/--
**Decoding undoes encoding.**

An iteration over the bytes the encoding loop writes gives back every table line as its full name
and its nine payload bytes, in sorted order, and then NULL.
-/
theorem cslIterEntries_encodeCsl {lines : List Line} (hok : ∀ l ∈ lines, l.Encodable)
    (hnd : (lines.map Line.dev).Nodup) (s : CslIter) :
    ∃ csl, encodeCsl lines = some csl ∧
      (cslIterInit s csl).bind cslIterEntries = some ((sortLines lines).map Line.entry) := by
  have hok' : ∀ l ∈ sortLines lines, l.Encodable := fun l hl => hok l (mem_sortLines.mp hl)
  obtain ⟨out, hout⟩ := encodeLoop_isSome hok' [] []
  have henc : encodeCsl lines = some (cslBytes ((sortLines lines).map Line.entry) ++ [0, 0]) := by
    simp [encodeCsl, hout, encodeLoop_start_eq hout]
  refine ⟨_, henc, cslIterEntries_cslBytes s ?_ ?_⟩
  · intro e he
    obtain ⟨l, hl, rfl⟩ := List.mem_map.mp he
    have hl' := hok' l hl
    exact ⟨⟨rfl, hl'.name_le⟩, fun hz => (hl'.name_ascii 0 hz).1 rfl, hl'.name_ne⟩
  · rw [List.map_map]
    exact List.pairwise_map.mpr (sortLines_strict hnd)

/-- The same example as for the search. -/
theorem cslIterEntries_encodeCsl_gainLines :
    ∃ csl, encodeCsl gainLines = some csl ∧
      (cslIterInit CslIter.zero csl).bind cslIterEntries =
        some ((sortLines gainLines).map Line.entry) :=
  cslIterEntries_encodeCsl gainLines_encodable (by decide) CslIter.zero

end MlibDevel.Jam
