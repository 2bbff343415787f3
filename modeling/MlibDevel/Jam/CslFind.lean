import MlibDevel.Jam.Cit2csl
import MlibDevel.Jam.Csl
import MlibDevel.Lib.CommonPrefix

/-!
# Searching a compact sorted list

`cit2csl.py` writes the list and `csl_find_key` searches it.  The search finds every name that was
written, with its payload, and nothing else.

The proof goes through `frontCode`, the byte stream of a list of entries:

1. the encoding loop writes `frontCode` (`encodeLoop_eq`),
2. the matching loop measures the common prefix of the entry and the key (`matchTail_append`),
3. the search resumed behind an entry that did not match gives the same answer as a lookup in the
   entries that are left (`resume_eq_lookup`), by induction on those entries.
-/

namespace MlibDevel.Jam

open Lib

/-! ## Entries and their byte stream -/

/-- A name with its payload bytes. -/
structure Entry where
  name : List UInt8
  payload : List UInt8

/-- An entry from its tail size field on, when `prev` is the name before it. -/
def entryBody (prev : List UInt8) (e : Entry) : List UInt8 :=
  UInt8.ofNat (e.name.length - lcp prev e.name) :: (e.name.drop (lcp prev e.name) ++ e.payload)

/-- The entries behind `prev`, each with its head size. -/
def frontCode (prev : List UInt8) : List Entry → List UInt8
  | [] => []
  | e :: es => UInt8.ofNat (lcp prev e.name) :: (entryBody prev e ++ frontCode e.name es)

/-- The payload bytes of a table line. -/
def Line.payload (l : Line) : List UInt8 :=
  be32 l.offset.toNat ++ be32 l.length.toNat ++ [UInt8.ofNat l.typecode.toNat]

@[simp] theorem Line.length_payload (l : Line) : l.payload.length = payloadLength := rfl

/-- A table line as an entry. -/
def Line.entry (l : Line) : Entry := ⟨l.dev, l.payload⟩

/-! ## The encoding loop writes `frontCode` -/

/-- The loop over the indices stops at the end of the common prefix. -/
theorem reuse_eq_lcp : ∀ prev dev : List UInt8, reuse prev dev = lcp prev dev
  | [], dev => by simp [reuse]
  | _ :: _, [] => by simp [reuse]
  | a :: prev, b :: dev => by
    have ih := reuse_eq_lcp prev dev
    simp only [reuse] at ih ⊢
    rw [List.length_cons, List.length_cons, Nat.add_min_add_right, List.range_succ_eq_map,
      List.find?_cons]
    by_cases h : a = b
    · subst h
      have hf : ((fun i => decide ((a :: prev)[i]? ≠ (a :: dev)[i]?)) ∘ Nat.succ)
          = fun i => decide (prev[i]? ≠ dev[i]?) := by
        funext i; simp
      simp only [List.getElem?_cons_zero, ne_eq, not_true_eq_false, decide_false,
        List.find?_map, lcp_cons_self] at hf ⊢
      rw [hf, ← ih]
      cases (List.range (min prev.length dev.length)).find?
        (fun i => decide (prev[i]? ≠ dev[i]?)) <;> simp
    · rw [lcp_cons_ne h]
      simp [h]

theorem packB_eq_some {n : Nat} {b : List UInt8} (h : packB n = some b) : b = [UInt8.ofNat n] := by
  unfold packB at h
  split at h
  · simpa using (Option.some.inj h).symm
  · simp at h

theorem packPayload_eq_some {l : Line} {p : List UInt8} (h : packPayload l = some p) :
    p = l.payload := by
  unfold packPayload packI packB at h
  simp only [Option.bind_eq_bind, Option.bind_eq_some_iff, Option.pure_def, Option.some.injEq,
    Option.ite_none_right_eq_some] at h
  obtain ⟨_, ⟨_, rfl⟩, _, ⟨_, rfl⟩, _, ⟨_, rfl⟩, rfl⟩ := h
  rfl

/-- Past the first entry, the loop appends the front-coded entries. -/
theorem encodeLoop_eq {lines : List Line} {csl prev out : List UInt8} (hne : csl ≠ [])
    (h : encodeLoop csl prev lines = some out) :
    out = csl ++ frontCode prev (lines.map Line.entry) := by
  induction lines generalizing csl prev with
  | nil => simpa [encodeLoop, frontCode] using h.symm
  | cons l rest ih =>
    have hlen : csl.length ≠ 0 := by simpa using hne
    simp only [encodeLoop, hlen, if_false, Option.bind_eq_bind, Option.bind_eq_some_iff] at h
    obtain ⟨head, hh, ntail, hn, payload, hp, h⟩ := h
    rw [ih (by simp [hne]) h, packB_eq_some hh, packB_eq_some hn, packPayload_eq_some hp,
      reuse_eq_lcp]
    simp [frontCode, entryBody, Line.entry]

/-- The bytes of a list of sorted lines, before the terminator. -/
def cslBytes : List Entry → List UInt8
  | [] => []
  | e :: es => UInt8.ofNat payloadLength :: (entryBody [] e ++ frontCode e.name es)

theorem encodeLoop_start_eq {lines : List Line} {out : List UInt8}
    (h : encodeLoop [] [] lines = some out) : out = cslBytes (lines.map Line.entry) := by
  cases lines with
  | nil => simpa [encodeLoop, cslBytes] using h.symm
  | cons l rest =>
    simp only [encodeLoop, List.length_nil, if_true, Option.bind_eq_bind,
      Option.bind_eq_some_iff] at h
    obtain ⟨head, hh, ntail, hn, payload, hp, h⟩ := h
    have hh' := packB_eq_some hh
    have ih := encodeLoop_eq (by simp [hh']) h
    rw [ih, hh', packB_eq_some hn, packPayload_eq_some hp, reuse_eq_lcp]
    simp [cslBytes, entryBody, Line.entry]

/-- The encoded list is the front-coded sorted lines and two zero bytes. -/
theorem encodeCsl_eq_some {lines : List Line} {csl : List UInt8} (h : encodeCsl lines = some csl) :
    csl = cslBytes ((sortLines lines).map Line.entry) ++ [0, 0] := by
  simp only [encodeCsl, Option.bind_eq_bind, Option.bind_eq_some_iff, Option.pure_def,
    Option.some.injEq] at h
  obtain ⟨out, ho, rfl⟩ := h
  rw [encodeLoop_start_eq ho]

/-! ## One entry of the search -/

/-- The matching loop stops where the tail and the key part. -/
theorem matchTail_append : ∀ (t rest key : List UInt8) (n : UInt8), 0 ∉ key →
    matchTail t.length (t ++ rest) key n
      = some ⟨t.length - lcp t key, t.drop (lcp t key) ++ rest, key.drop (lcp t key),
          n + UInt8.ofNat (lcp t key)⟩
  | [], rest, key, n, _ => by simp [matchTail]
  | c :: t, rest, [], n, _ => by simp [matchTail]
  | c :: t, rest, k :: key, n, h => by
    simp only [List.mem_cons, not_or] at h
    have hk : ¬ k = 0 := Ne.symm h.1
    rw [List.length_cons, List.cons_append, matchTail, deref_cons, if_neg hk, List.tail_cons]
    by_cases hc : c = k
    · subst hc
      rw [if_pos rfl, matchTail_append t rest key (n + 1) h.2]
      simp only [lcp_cons_self, Nat.add_sub_add_right, List.drop_succ_cons,
        UInt8.ofNat_add, Option.some.injEq, Match.mk.injEq, true_and]
      rw [UInt8.add_assoc, UInt8.add_comm 1]
      rfl
    · rw [if_neg hc, lcp_cons_ne hc]
      simp

/-- What the search does behind an entry that did not match: skip, compare, go on. -/
def resume (plLen : UInt8) (csl key : List UInt8) (nmatch : UInt8) : Option (Option (List UInt8)) :=
  match skipEntries plLen nmatch csl with
  | none => none
  | some [] => none
  | some (head :: csl) => if head < nmatch then some none else findLoop plLen csl key nmatch

theorem findLoop_cons (plLen ntail : UInt8) (csl key : List UInt8) (nmatch : UInt8) :
    findLoop plLen (ntail :: csl) key nmatch
      = if ntail = 0 then some none
        else (matchTail ntail.toNat csl key nmatch).bind fun m =>
          if deref m.key = 0 ∧ m.ntail = 0 then some (some m.csl)
          else if deref m.key = 0 then some none
          else resume plLen (m.csl.drop (m.ntail + plLen.toNat)) m.key m.nmatch := by
  rw [findLoop]
  split
  · rfl
  · split
    · next hm => rw [hm]; rfl
    · next m hm =>
      rw [hm, Option.bind_some]
      split
      · rfl
      · split
        · rfl
        · rw [resume]
          split <;> simp_all

/-- The entry the pointer is on, with the first `lcp prev e.name` characters known to match. -/
theorem findLoop_entryBody {plLen : UInt8} {prev stream key : List UInt8} {e : Entry}
    (hkey : 0 ∉ key) (hpl : e.payload.length = plLen.toNat) (hlen : e.name.length ≤ 255)
    (htail : lcp prev e.name < e.name.length) (hpre : lcp prev e.name ≤ lcp e.name key) :
    findLoop plLen (entryBody prev e ++ stream) (key.drop (lcp prev e.name))
        (UInt8.ofNat (lcp prev e.name))
      = if e.name = key then some (some (e.payload ++ stream))
        else if lcp e.name key = key.length then some none
        else resume plLen stream (key.drop (lcp e.name key)) (UInt8.ofNat (lcp e.name key)) := by
  generalize hn : lcp prev e.name = n at *
  have hnt : (UInt8.ofNat (e.name.length - n)).toNat = (e.name.drop n).length := by
    simp; omega
  have hne0 : UInt8.ofNat (e.name.length - n) ≠ 0 := by
    intro h0
    rw [h0] at hnt
    simp at hnt; omega
  have hkd : 0 ∉ key.drop n := fun h => hkey (List.mem_of_mem_drop h)
  have hsub := lcp_drop_drop hpre
  have hkl := lcp_le_right e.name key
  have hel := lcp_le_left e.name key
  rw [entryBody, hn, List.cons_append, List.append_assoc, findLoop_cons, if_neg hne0, hnt,
    matchTail_append _ _ _ _ hkd, Option.bind_some]
  simp only [hsub, List.drop_drop, List.length_drop, ← UInt8.ofNat_add,
    Nat.add_sub_cancel' hpre]
  have hkz : deref (key.drop (lcp e.name key)) = 0 ↔ lcp e.name key = key.length := by
    rw [deref_eq_zero_iff (fun h => hkey (List.mem_of_mem_drop h)), List.drop_eq_nil_iff]
    omega
  by_cases hfound : e.name = key
  · -- both run out together
    have hself : lcp e.name key = key.length := by rw [hfound, lcp_self]
    rw [if_pos hfound, if_pos ⟨hkz.mpr hself, by rw [hself, hfound]; omega⟩]
    rw [hself, ← hfound, List.drop_length, List.nil_append]
  rw [if_neg hfound]
  by_cases hk : lcp e.name key = key.length
  · have hlt : lcp e.name key ≠ e.name.length := fun he => hfound (eq_of_lcp_eq_length he hk)
    rw [if_neg (by omega), if_pos (hkz.mpr hk), if_pos hk]
  · rw [if_neg (fun h => hk (hkz.mp h.1)), if_neg (fun h => hk (hkz.mp h)), if_neg hk]
    have hdrop : (e.name.drop (lcp e.name key) ++ (e.payload ++ stream)).drop
        (e.name.length - n - (lcp e.name key - n) + plLen.toNat) = stream := by
      rw [← List.append_assoc]
      exact List.drop_left' (by simp; omega)
    rw [hdrop]

/-! ## The whole search -/

/-- The first entry with the given name, as the pointer to its payload.  `z` ends the stream. -/
def lookup (key z : List UInt8) : List Entry → Option (List UInt8)
  | [] => none
  | e :: es =>
    if e.name = key then some (e.payload ++ (frontCode e.name es ++ z)) else lookup key z es

theorem lookup_eq_none {key z : List UInt8} : ∀ {es : List Entry},
    (∀ e ∈ es, e.name ≠ key) → lookup key z es = none
  | [], _ => rfl
  | e :: es, h => by
    rw [lookup, if_neg (h e (by simp)), lookup_eq_none fun f hf => h f (by simp [hf])]

/-- What every entry of a list must satisfy for its sizes to fit a byte. -/
def Entry.Fits (plLen : UInt8) (e : Entry) : Prop :=
  e.payload.length = plLen.toNat ∧ e.name.length ≤ 255

/-- A head size that is not larger than the match stops the skipping. -/
theorem resume_stop {plLen nmatch head : UInt8} {csl key : List UInt8} (h : ¬ head > nmatch) :
    resume plLen (head :: csl) key nmatch
      = if head < nmatch then some none else findLoop plLen csl key nmatch := by
  have hskip : skipEntries plLen nmatch (head :: csl) = some (head :: csl) := by
    unfold skipEntries; rw [if_neg h]
  rw [resume, hskip]

/-- An entry whose head size is larger than the match is stepped over. -/
theorem resume_skip {plLen nmatch : UInt8} {prev key stream : List UInt8} {e : Entry}
    (hfit : e.Fits plLen) (hgt : UInt8.ofNat (lcp prev e.name) > nmatch) :
    resume plLen (UInt8.ofNat (lcp prev e.name) :: (entryBody prev e ++ stream)) key nmatch
      = resume plLen stream key nmatch := by
  obtain ⟨hpl, hlen⟩ := hfit
  have hle := lcp_le_right prev e.name
  have hskip : skipEntries plLen nmatch
      (UInt8.ofNat (lcp prev e.name) :: (entryBody prev e ++ stream))
      = skipEntries plLen nmatch stream := by
    rw [entryBody, List.cons_append, List.append_assoc, skipEntries, if_pos hgt,
      ← List.append_assoc]
    congr 1
    exact List.drop_left' (by simp; omega)
  rw [resume, resume, hskip]

/--
**The search behind an entry that did not match.**

`e` is the entry just compared and `lcp e.name key` the characters of the key it matched.  If the
key is among the entries that are left, or the stream ends with the terminator, the search gives
what a lookup in those entries gives.
-/
theorem resume_eq_lookup {plLen : UInt8} {key z : List UInt8} (hkey : 0 ∉ key) :
    ∀ (es : List Entry) (e : Entry), (∀ f ∈ es, f.Fits plLen) → e.name.length ≤ 255 →
      (e :: es).Pairwise (fun a b => a.name < b.name) → lcp e.name key < key.length →
      (key ∈ es.map Entry.name ∨ z = [0, 0]) →
      resume plLen (frontCode e.name es ++ z) (key.drop (lcp e.name key))
          (UInt8.ofNat (lcp e.name key))
        = some (lookup key z es)
  | [], e, _, hlen, _, _, hz => by
    obtain rfl : z = [0, 0] := by simpa using hz
    rw [frontCode, List.nil_append, lookup, resume_stop (by simp), findLoop_cons]
    simp
  | f :: es, e, hfit, hlen, hsort, hm, hz => by
    obtain ⟨hfpl, hflen⟩ := hfit f (by simp)
    obtain ⟨hlt, hsort'⟩ := List.pairwise_cons.mp hsort
    have hef : e.name < f.name := hlt f (by simp)
    have hfes := (List.pairwise_cons.mp hsort').1
    have hme := lcp_le_left e.name key
    have hhe := lcp_le_left e.name f.name
    have htoNat : ∀ n ≤ 255, (UInt8.ofNat n).toNat = n := by intro n hn; simp; omega
    -- behind `f` everything is larger than `f`, so a key below `f` is not there
    have hnone : key < f.name → lookup key z (f :: es) = none := by
      intro hk
      refine lookup_eq_none fun g hg => ?_
      rcases List.mem_cons.mp hg with rfl | hg
      · exact ne_of_gt hk
      · exact ne_of_gt (lt_trans hk (hfes g hg))
    have hrest : f.name ≠ key → (key ∈ es.map Entry.name ∨ z = [0, 0]) := by
      intro hne
      rcases hz with hz | hz
      · simp only [List.map_cons, List.mem_cons] at hz
        exact Or.inl (hz.resolve_left (Ne.symm hne))
      · exact Or.inr hz
    rw [frontCode, List.cons_append, List.append_assoc]
    rcases Nat.lt_trichotomy (lcp e.name key) (lcp e.name f.name) with hcmp | hcmp | hcmp
    · -- `f` shares more with `e` than the key does: skip it
      have hf : lcp f.name key = lcp e.name key := lcp_eq_of_lcp_lt hcmp
      have hne : f.name ≠ key := fun h => by rw [h, lcp_self] at hf; omega
      rw [resume_skip ⟨hfpl, hflen⟩
        (by rw [gt_iff_lt, UInt8.lt_iff_toNat_lt, htoNat _ (by omega), htoNat _ (by omega)]
            exact hcmp)]
      rw [lookup, if_neg hne, ← hf]
      exact resume_eq_lookup hkey es f (fun g hg => hfit g (by simp [hg])) hflen hsort'
        (by omega) (hrest hne)
    · -- `f` shares exactly what the key matched: compare on from there
      have hpre : lcp e.name f.name ≤ lcp f.name key := by
        refine le_lcp_of_take_eq ?_ (lcp_le_right _ _) (by omega)
        rw [← take_lcp e.name f.name, ← hcmp, take_lcp]
      rw [hcmp, resume_stop (lt_irrefl _), if_neg (lt_irrefl _),
        findLoop_entryBody hkey hfpl hflen (lcp_lt_length_of_lt hef) hpre, lookup]
      by_cases hfound : f.name = key
      · rw [if_pos hfound, if_pos hfound]
      rw [if_neg hfound, if_neg hfound]
      have hfk := lcp_le_right f.name key
      by_cases hdone : lcp f.name key = key.length
      · -- the key is a proper prefix of `f`
        have hlong : key.length < f.name.length := by
          have hfl := lcp_le_left f.name key
          have : lcp f.name key ≠ f.name.length := fun h => hfound (eq_of_lcp_eq_length h hdone)
          omega
        have hnone' := hnone (lt_of_lcp_eq_length hdone hlong)
        rw [lookup, if_neg hfound] at hnone'
        rw [if_pos hdone, hnone']
      · rw [if_neg hdone]
        exact resume_eq_lookup hkey es f (fun g hg => hfit g (by simp [hg])) hflen hsort'
          (by omega) (hrest hfound)
    · -- `f` shares less: it is already past the key
      have hlt' : UInt8.ofNat (lcp e.name f.name) < UInt8.ofNat (lcp e.name key) := by
        rw [UInt8.lt_iff_toNat_lt, htoNat _ (by omega), htoNat _ (by omega)]; exact hcmp
      rw [hnone (lt_of_lcp_lt hef hcmp), resume_stop (lt_asymm hlt'), if_pos hlt']

/-- The search of a whole list, from its payload length byte on. -/
theorem cslFindKey_cslBytes {es : List Entry} {key z : List UInt8} (hkey : 0 ∉ key)
    (hfit : ∀ e ∈ es, e.Fits (UInt8.ofNat payloadLength)) (hne : ∀ e ∈ es, e.name ≠ [])
    (hsort : es.Pairwise fun a b => a.name < b.name) (hz : key ∈ es.map Entry.name ∨ z = [0, 0]) :
    cslFindKey (some (cslBytes es ++ z)) key = some (lookup key z es) := by
  cases es with
  | nil =>
    obtain rfl : z = [0, 0] := by simpa using hz
    simp [cslBytes, cslFindKey, findLoop_cons, lookup]
  | cons e es =>
    obtain ⟨hpl, hlen⟩ := hfit e (by simp)
    have hpos : 0 < e.name.length := List.length_pos_iff.mpr (hne e (by simp))
    rw [cslBytes, List.cons_append, List.append_assoc, cslFindKey, lookup]
    have hstep : findLoop (UInt8.ofNat payloadLength)
        (entryBody [] e ++ (frontCode e.name es ++ z)) (key.drop (lcp [] e.name))
        (UInt8.ofNat (lcp [] e.name)) = _ :=
      findLoop_entryBody hkey hpl hlen (by simpa using hpos) (by simp)
    rw [lcp_nil_left, List.drop_zero] at hstep
    rw [show (0 : UInt8) = UInt8.ofNat 0 from rfl, hstep]
    by_cases hfound : e.name = key
    · rw [if_pos hfound, if_pos hfound]
    rw [if_neg hfound, if_neg hfound]
    have hrest : key ∈ es.map Entry.name ∨ z = [0, 0] := by
      rcases hz with hz | hz
      · simp only [List.map_cons, List.mem_cons] at hz
        exact Or.inl (hz.resolve_left (Ne.symm hfound))
      · exact Or.inr hz
    have hek := lcp_le_right e.name key
    by_cases hdone : lcp e.name key = key.length
    · have hlong : key.length < e.name.length := by
        have hfl := lcp_le_left e.name key
        have : lcp e.name key ≠ e.name.length := fun h => hfound (eq_of_lcp_eq_length h hdone)
        omega
      have hlt := lt_of_lcp_eq_length hdone hlong
      rw [if_pos hdone, lookup_eq_none fun g hg =>
        ne_of_gt (lt_trans hlt ((List.pairwise_cons.mp hsort).1 g hg))]
    · rw [if_neg hdone]
      exact resume_eq_lookup hkey es e (fun g hg => hfit g (by simp [hg])) hlen hsort
        (by omega) hrest

/-- A hit of the lookup is a payload inside the stream, behind the first head size. -/
theorem lookup_eq_some {key z : List UInt8} : ∀ {es : List Entry} {e : Entry}, e ∈ es →
    e.name = key → (es.map Entry.name).Nodup →
    ∃ rest, lookup key z es = some (e.payload ++ rest) ∧
      ∀ prev, e.payload ++ rest <:+ (frontCode prev es ++ z).tail
  | f :: es, e, hmem, hname, hnodup => by
    rw [List.map_cons, List.nodup_cons] at hnodup
    rcases List.mem_cons.mp hmem with rfl | hmem
    · refine ⟨frontCode e.name es ++ z, by rw [lookup, if_pos hname], fun prev => ?_⟩
      refine ⟨UInt8.ofNat (e.name.length - lcp prev e.name) :: e.name.drop (lcp prev e.name), ?_⟩
      simp [frontCode, entryBody]
    · have hne : f.name ≠ key := fun h => hnodup.1 (h ▸ hname ▸ List.mem_map_of_mem hmem)
      obtain ⟨rest, h1, h2⟩ := lookup_eq_some hmem hname hnodup.2
      refine ⟨rest, by rw [lookup, if_neg hne, h1], fun prev => ?_⟩
      rw [frontCode, List.cons_append, List.append_assoc, List.tail_cons]
      exact ((h2 f.name).trans (List.tail_suffix _)).trans (List.suffix_append _ _)

/-! ## Encoding and searching -/

/-- A table line the script can encode: a name of 1 to 255 ASCII characters, fields in range. -/
structure Line.Encodable (l : Line) : Prop where
  name_ne : l.dev ≠ []
  name_le : l.dev.length ≤ 255
  name_ascii : ∀ c ∈ l.dev, c ≠ 0 ∧ c < 128
  offset_range : 0 ≤ l.offset ∧ l.offset < 2 ^ 32
  length_range : 0 ≤ l.length ∧ l.length < 2 ^ 32
  typecode_range : 0 ≤ l.typecode ∧ l.typecode < 256

theorem Line.Encodable.packPayload {l : Line} (h : l.Encodable) :
    packPayload l = some l.payload := by
  simp only [Jam.packPayload, packI, packB, if_pos h.offset_range, if_pos h.length_range,
    if_pos h.typecode_range, Option.bind_eq_bind, Option.bind_some, Option.pure_def, payload]

theorem packB_of_le {n : Nat} (h : n ≤ 255) : packB n = some [UInt8.ofNat n] := by
  rw [packB, if_pos ⟨by omega, by omega⟩, Int.toNat_natCast]

/-- Encodable lines make every `struct.pack` succeed. -/
theorem encodeLoop_isSome {lines : List Line} (h : ∀ l ∈ lines, l.Encodable)
    (csl prev : List UInt8) : ∃ out, encodeLoop csl prev lines = some out := by
  induction lines generalizing csl prev with
  | nil => exact ⟨csl, rfl⟩
  | cons l rest ih =>
    have hl := h l (by simp)
    have hle : reuse prev l.dev ≤ 255 := by
      have := lcp_le_right prev l.dev
      have := hl.name_le
      rw [reuse_eq_lcp]; omega
    have hhead : (if csl.length = 0 then payloadLength else reuse prev l.dev) ≤ 255 := by
      split
      · decide
      · exact hle
    have htail : (l.dev.drop (reuse prev l.dev)).length ≤ 255 := by
      have := hl.name_le
      simp; omega
    simp only [encodeLoop, packB_of_le hhead, packB_of_le htail, hl.packPayload,
      Option.bind_eq_bind, Option.bind_some]
    exact ih (fun m hm => h m (by simp [hm])) _ _

theorem mem_sortLines {lines : List Line} {l : Line} : l ∈ sortLines lines ↔ l ∈ lines :=
  List.mem_insertionSort _

/-- Sorted lines with distinct names have their names in strictly increasing order. -/
theorem sortLines_strict {lines : List Line} (hnd : (lines.map Line.dev).Nodup) :
    (sortLines lines).Pairwise fun a b => a.dev < b.dev := by
  have hle : (sortLines lines).Pairwise fun a b => a.dev ≤ b.dev :=
    (List.pairwise_insertionSort (· ≤ ·) lines).imp Line.dev_le_of_le
  have hne : ((sortLines lines).map Line.dev).Nodup :=
    ((List.perm_insertionSort (· ≤ ·) lines).map Line.dev).nodup_iff.mpr hnd
  rw [List.Nodup, List.pairwise_map] at hne
  exact hle.imp₂ (fun _ _ h1 h2 => lt_of_le_of_ne h1 h2) hne

/--
**The search finds exactly the names that were encoded.**

Whatever the key, `csl_find_key` on the bytes of the encoding loop returns a pointer to the nine
payload bytes of the entry with that name, or NULL when there is none; and it never reads outside
the list.
-/
theorem cslFindKey_encodeCsl {lines : List Line} (hok : ∀ l ∈ lines, l.Encodable)
    (hnd : (lines.map Line.dev).Nodup) {key : List UInt8} (hkey : 0 ∉ key) :
    ∃ csl, encodeCsl lines = some csl ∧
      (∀ l ∈ lines, l.dev = key → ∃ p, cslFindKey (some csl) key = some (some p) ∧
        p <:+ csl ∧ p.take payloadLength = l.payload) ∧
      ((∀ l ∈ lines, l.dev ≠ key) → cslFindKey (some csl) key = some none) := by
  have hok' : ∀ l ∈ sortLines lines, l.Encodable := fun l hl => hok l (mem_sortLines.mp hl)
  obtain ⟨out, hout⟩ := encodeLoop_isSome hok' [] []
  have henc : encodeCsl lines = some (cslBytes ((sortLines lines).map Line.entry) ++ [0, 0]) := by
    simp [encodeCsl, hout, encodeLoop_start_eq hout]
  have hstrict := sortLines_strict hnd
  have hfind : cslFindKey (some (cslBytes ((sortLines lines).map Line.entry) ++ [0, 0])) key
      = some (lookup key [0, 0] ((sortLines lines).map Line.entry)) := by
    refine cslFindKey_cslBytes hkey ?_ ?_ ?_ (Or.inr rfl)
    · simp only [List.mem_map, forall_exists_index, and_imp]
      rintro e l hl rfl
      exact ⟨rfl, (hok' l hl).name_le⟩
    · simp only [List.mem_map, forall_exists_index, and_imp]
      rintro e l hl rfl
      exact (hok' l hl).name_ne
    · exact List.pairwise_map.mpr hstrict
  refine ⟨_, henc, ?_, ?_⟩
  · rintro l hl rfl
    have hmem : l.entry ∈ (sortLines lines).map Line.entry :=
      List.mem_map_of_mem (mem_sortLines.mpr hl)
    have hnodup : (((sortLines lines).map Line.entry).map Entry.name).Nodup := by
      rw [List.map_map]
      exact List.pairwise_map.mpr (hstrict.imp ne_of_lt)
    obtain ⟨rest, h1, h2⟩ := lookup_eq_some (z := [0, 0]) hmem rfl hnodup
    refine ⟨l.payload ++ rest, by rw [hfind]; exact congrArg some h1, ?_, ?_⟩
    · -- the payload length byte stands where a head size of zero would
      cases hs : (sortLines lines).map Line.entry with
      | nil => rw [hs] at hmem; simp at hmem
      | cons e es =>
        have h3 := h2 []
        rw [hs, frontCode, List.cons_append, List.tail_cons] at h3
        rw [cslBytes, List.cons_append]
        exact h3.trans (List.suffix_cons _ _)
    · rw [← Line.length_payload l, List.take_left]
  · intro hnone
    rw [hfind, lookup_eq_none]
    simp only [List.mem_map, forall_exists_index, and_imp]
    rintro e l hl rfl
    exact hnone l (mem_sortLines.mp hl)

/-- `eq_1_gain`, `eq_1` and `eq_0_gain`: a shared prefix and a name that extends another. -/
def gainLines : List Line :=
  [⟨[101, 113, 95, 49, 95, 103, 97, 105, 110], 16, 4, 0⟩, ⟨[101, 113, 95, 49], 17, 4, 2⟩,
    ⟨[101, 113, 95, 48, 95, 103, 97, 105, 110], 65536, 256, 4⟩]

theorem gainLines_encodable : ∀ l ∈ gainLines, l.Encodable := by
  simp only [gainLines, List.mem_cons, List.not_mem_nil, or_false]
  rintro l (rfl | rfl | rfl) <;> constructor <;> simp

theorem cslFindKey_encodeCsl_gainLines :
    ∃ csl, encodeCsl gainLines = some csl ∧
      (∀ l ∈ gainLines, l.dev = [101, 113, 95, 49] →
        ∃ p, cslFindKey (some csl) [101, 113, 95, 49] = some (some p) ∧
          p <:+ csl ∧ p.take payloadLength = l.payload) ∧
      ((∀ l ∈ gainLines, l.dev ≠ [101, 113, 95, 49]) →
        cslFindKey (some csl) [101, 113, 95, 49] = some none) :=
  cslFindKey_encodeCsl gainLines_encodable (by decide) (by decide)

end MlibDevel.Jam
