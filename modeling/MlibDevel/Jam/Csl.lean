import MlibDevel.Jam.Bytes

/-!
# Compact sorted lists (`csl.c`)

A CSL stores a sorted list of names by front coding.  Each entry is a head size (how many leading
characters it takes over from the entry before it), a tail size, the tail characters and a payload
of fixed length.  The first entry has nothing to take over, so its head size field holds the
payload length instead; two zero bytes end the list.

`cslFindKey` searches the list without rebuilding a name.  `cslIterNext` rebuilds the names one
after another in a static buffer.

## Termination

Every loop moves its pointer forward, so the length of what is left is the measure.
-/

namespace MlibDevel.Jam

/-! ## `csl_find_key` -/

/-- The variables `csl_find_key` carries through its matching loop. -/
structure Match where
  ntail : Nat
  csl : List UInt8
  key : List UInt8
  nmatch : UInt8

/-- `while(ntail && *key && *csl == *key) { csl++; ntail--; key++; nmatch++; }` -/
def matchTail : Nat → List UInt8 → List UInt8 → UInt8 → Option Match
  | 0, csl, key, nmatch => some ⟨0, csl, key, nmatch⟩
  | ntail + 1, csl, key, nmatch =>
    if deref key = 0 then some ⟨ntail + 1, csl, key, nmatch⟩
    else
      match csl with
      | [] => none
      | c :: csl' =>
        if c = deref key then matchTail ntail csl' key.tail (nmatch + 1)
        else some ⟨ntail + 1, csl, key, nmatch⟩

/-- `while(*csl > nmatch) { csl++; csl += *csl + pl_len; csl++; }` -/
def skipEntries (plLen nmatch : UInt8) : List UInt8 → Option (List UInt8)
  | [] => none
  | head :: rest =>
    if head > nmatch then
      match rest with
      | [] => none
      | ntail :: rest => skipEntries plLen nmatch (rest.drop (ntail.toNat + plLen.toNat))
    else some (head :: rest)
termination_by csl => csl.length
decreasing_by simp; omega

theorem matchTail_length : ∀ {n : Nat} {csl key : List UInt8} {nmatch : UInt8} {m : Match},
    matchTail n csl key nmatch = some m → m.csl.length ≤ csl.length
  | 0, _, _, _, _, h => by
    rw [matchTail] at h
    rw [← Option.some.inj h]
  | n + 1, csl, key, nmatch, m, h => by
    unfold matchTail at h
    split at h
    · rw [← Option.some.inj h]
    · split at h
      · simp at h
      · split at h
        · have := matchTail_length h
          simp; omega
        · rw [← Option.some.inj h]

theorem skipEntries_length {plLen nmatch : UInt8} {csl out : List UInt8}
    (h : skipEntries plLen nmatch csl = some out) : out.length ≤ csl.length := by
  fun_induction skipEntries plLen nmatch csl with
  | case1 => simp at h
  | case2 => simp at h
  | case3 head _ ntail rest ih =>
    have := ih h
    simp at this ⊢; omega
  | case4 head rest _ => rw [← Option.some.inj h]

/-- The outer loop, entered with the pointer on an entry's tail size field. -/
def findLoop (plLen : UInt8) (csl key : List UInt8) (nmatch : UInt8) :
    Option (Option (List UInt8)) :=
  match csl with
  | [] => none
  | ntail :: csl =>
    if ntail = 0 then some none
    else
      match _hm : matchTail ntail.toNat csl key nmatch with
      | none => none
      | some m =>
        if deref m.key = 0 ∧ m.ntail = 0 then some (some m.csl)
        else if deref m.key = 0 then some none
        else
          match _hs : skipEntries plLen m.nmatch (m.csl.drop (m.ntail + plLen.toNat)) with
          | none => none
          | some [] => none
          | some (head :: csl) =>
            -- past the point where the key should be
            if head < m.nmatch then some none
            else findLoop plLen csl m.key m.nmatch
termination_by csl.length
decreasing_by
  have h1 := matchTail_length _hm
  have h2 := skipEntries_length _hs
  simp at h2 ⊢
  omega

/--
Search of a CSL for a key.  The outer `none` is a read outside the list, `some none` the NULL the
code returns when the key is not there, and `some (some p)` a pointer to the payload.
-/
def cslFindKey (csl : Option (List UInt8)) (key : List UInt8) : Option (Option (List UInt8)) :=
  match csl with
  | none => some none
  | some [] => none
  | some (plLen :: csl) => findLoop plLen csl key 0

/-! ## `csl_iter_init` and `csl_iter_next` -/

/-- Size of the static buffer `csl_key`. -/
def cslKeySize : Nat := 256

/-- The static variables behind `csl_iter_*`. -/
structure CslIter where
  pcsl : List UInt8
  key : List UInt8
  plLen : UInt8
  nhead : UInt8
  key_size : key.length = cslKeySize

/-- The statics as the loader leaves them. -/
def CslIter.zero : CslIter :=
  { pcsl := [], key := List.replicate cslKeySize 0, plLen := 0, nhead := 0,
    key_size := List.length_replicate }

/-- `csl_key[i] = c`, an error outside the buffer. -/
def storeKey (key : List UInt8) (i : Nat) (c : UInt8) : Option (List UInt8) :=
  if i < key.length then some (key.set i c) else none

theorem storeKey_length {key key' : List UInt8} {i : Nat} {c : UInt8}
    (h : storeKey key i c = some key') : key'.length = key.length := by
  unfold storeKey at h
  split at h
  · rw [← Option.some.inj h]; simp
  · simp at h

/-- `while(ntail--) { *pcsl_key++ = *csl_pcsl++; }`, returning the buffer and both pointers. -/
def copyTail : Nat → List UInt8 → Nat → List UInt8 → Option (List UInt8 × Nat × List UInt8)
  | 0, key, i, pcsl => some (key, i, pcsl)
  | ntail + 1, key, i, pcsl =>
    match pcsl with
    | [] => none
    | c :: pcsl =>
      match storeKey key i c with
      | none => none
      | some key => copyTail ntail key (i + 1) pcsl

theorem copyTail_length : ∀ {n : Nat} {key : List UInt8} {i : Nat} {pcsl : List UInt8}
    {r : List UInt8 × Nat × List UInt8}, copyTail n key i pcsl = some r →
    r.1.length = key.length
  | 0, _, _, _, _, h => by rw [copyTail] at h; rw [← Option.some.inj h]
  | n + 1, key, i, [], r, h => by simp [copyTail] at h
  | n + 1, key, i, c :: pcsl, r, h => by
    rw [copyTail] at h
    split at h
    · simp at h
    · next key' hk => rw [copyTail_length h, storeKey_length hk]

/-- Start an iteration over the list at `csl`. -/
def cslIterInit (s : CslIter) (csl : List UInt8) : Option CslIter :=
  match csl, h : storeKey s.key 0 0 with
  | plLen :: pcsl, some key =>
    some { pcsl, key, plLen, nhead := 0, key_size := (storeKey_length h).trans s.key_size }
  | _, _ => none

/--
The next entry: the payload pointer, or NULL (`none`) at the end of the list.  The entry's name is
left in `csl_key`.
-/
def cslIterNext (s : CslIter) : Option (CslIter × Option (List UInt8)) :=
  match s.pcsl with
  | [] => none
  | ntail :: pcsl =>
    if ntail = 0 then some ({ s with pcsl }, none)
    else
      match hc : copyTail ntail.toNat s.key s.nhead.toNat pcsl with
      | none => none
      | some (key, i, payload) =>
        match hk : storeKey key i 0 with
        | none => none
        | some key' =>
          match payload.drop s.plLen.toNat with
          | [] => none
          | nhead :: pcsl =>
            some ({ pcsl, key := key', plLen := s.plLen, nhead,
                    key_size := by
                      rw [storeKey_length hk, copyTail_length hc]; exact s.key_size },
                  some payload)

end MlibDevel.Jam
