import MlibDevel.Jam.HexDump
import MlibDevel.Jam.TapcpOpen

/-!
# The FPGA words a transfer reaches

`casper_tapcp_open_dev` and `casper_tapcp_open_mem` leave a pointer and a byte count and install one
of four callbacks.  Whatever calls follow, these access consecutive words from the pointer on, and
the count says how many: a reader stops when `nleft` is used up (or negative), a writer when it
reaches zero, but a negative `nleft` does not limit a writer at all.

`accessesWithin_iff` says it for all four: an address is reached in some run if and only if it is
one of the words the count allows.
-/

namespace MlibDevel.Jam

open Lib

variable (env : Env)

/-- The count allows access to word `i`. -/
def Allowed (write : Bool) (nleft : Int) (i : Nat) : Prop :=
  4 * ((i : Int) + 1) ≤ nleft ∨ (write = true ∧ nleft < 0)

/-- Every word accessed in any run from a state on lies inside. -/
def AccessesWithin (s : Tapcp) (inside : UInt32 → Prop) : Prop :=
  ∀ calls s', runCalls env calls { s with bus := [] } = some s' → ∀ a ∈ s'.bus, inside a.addr

/-- The words accessed so far are the `m` words from an address on. -/
structure Accessed (addr : UInt32) (m : Nat) (s : Tapcp) : Prop where
  ptr : s.ptr = addr + 4 * UInt32.ofNat m
  bus : s.bus.map Access.addr = wordAddrs addr m

theorem wordAddrs_append : ∀ (addr : UInt32) (m n : Nat),
    wordAddrs addr (m + n) = wordAddrs addr m ++ wordAddrs (addr + 4 * UInt32.ofNat m) n
  | addr, 0, n => by simp [wordAddrs]
  | addr, m + 1, n => by
    rw [Nat.add_right_comm, wordAddrs, wordAddrs, wordAddrs_append, four_mul_succ, List.cons_append]

theorem mem_wordAddrs {addr a : UInt32} {m : Nat} :
    a ∈ wordAddrs addr m ↔ ∃ i < m, a = addr + 4 * UInt32.ofNat i := by
  induction m with
  | zero => simp [wordAddrs]
  | succ m ih =>
    rw [wordAddrs_append, List.mem_append, ih, wordAddrs, wordAddrs, List.mem_singleton]
    constructor
    · rintro (⟨i, hi, rfl⟩ | rfl)
      · exact ⟨i, by omega, rfl⟩
      · exact ⟨m, by omega, rfl⟩
    · rintro ⟨i, hi, rfl⟩
      rcases Nat.lt_or_ge i m with hlt | hge
      · exact Or.inl ⟨i, hlt, rfl⟩
      · exact Or.inr (by rw [show i = m by omega])

/-- Access to the next word. -/
theorem Accessed.next {addr : UInt32} {m : Nat} {s s' : Tapcp} (h : Accessed addr m s) {a : Access}
    (ha : a.addr = s.ptr) (hptr : s'.ptr = s.ptr + 4) (hbus : s'.bus = s.bus ++ [a]) :
    Accessed addr (m + 1) s' where
  ptr := by
    rw [hptr, h.ptr, ← four_mul_succ, UInt32.add_assoc, UInt32.add_assoc, UInt32.add_comm 4]
  bus := by
    rw [hbus, List.map_append, h.bus, wordAddrs_append, List.map_singleton, ha, h.ptr]
    rfl

/-- A state that differs in neither has accessed the same words. -/
theorem Accessed.same {addr : UInt32} {m : Nat} {s s' : Tapcp} (h : Accessed addr m s)
    (hptr : s'.ptr = s.ptr) (hbus : s'.bus = s.bus) : Accessed addr m s' :=
  ⟨hptr.trans h.ptr, by rw [hbus, h.bus]⟩

/-! ## `casper_tapcp_read_fpga_words_binary` -/

/-- The words read when `nleft` of `total` bytes are left. -/
def ReadingBinary (addr : UInt32) (total : Int) (s : Tapcp) : Prop :=
  s.readFn = .fpgaWordsBinary ∧ s.writeFn = .error ∧
    ∃ m : Nat, Accessed addr m s ∧ 4 * m + 4 * (s.nleft / 4) = total ∧ (s.nleft < 0 → m = 0)

theorem fpgaWordsLoop_reading {addr : UInt32} {total : Int} : ∀ (n : Nat) {s : Tapcp},
    ReadingBinary addr total s → ReadingBinary addr total (fpgaWordsLoop env n s).1
  | 0, _, h => h
  | n + 1, s, h => by
    obtain ⟨hr, hw, m, hacc, htot, hneg⟩ := h
    rw [fpgaWordsLoop]
    by_cases hpos : s.nleft > 0
    · rw [if_pos hpos]
      dsimp only
      by_cases h3 : (s.nleft - 1) % 4 = 3
      · rw [if_pos h3]
        refine fpgaWordsLoop_reading n ⟨hr, hw, m + 1, hacc.next rfl rfl rfl, ?_, ?_⟩
        · show 4 * ((m + 1 : Nat) : Int) + 4 * ((s.nleft - 1) / 4) = total
          omega
        · show s.nleft - 1 < 0 → _
          omega
      · rw [if_neg h3]
        refine fpgaWordsLoop_reading n ⟨hr, hw, m, hacc.same rfl rfl, ?_, ?_⟩
        · show 4 * (m : Int) + 4 * ((s.nleft - 1) / 4) = total
          omega
        · show s.nleft - 1 < 0 → _
          omega
    · rw [if_neg hpos]
      exact ⟨hr, hw, m, hacc, htot, hneg⟩

/-- A call reads as many bytes as there are. -/
theorem fpgaWordsLoop_nleft : ∀ (n : Nat) {s : Tapcp}, (n : Int) ≤ s.nleft →
    (fpgaWordsLoop env n s).1.nleft = s.nleft - n
  | 0, s, _ => by simp [fpgaWordsLoop]
  | n + 1, s, h => by
    rw [fpgaWordsLoop, if_pos (by omega)]
    dsimp only
    split
    · rw [fpgaWordsLoop_nleft n (by dsimp only; omega)]
      dsimp only
      omega
    · rw [fpgaWordsLoop_nleft n (by dsimp only; omega)]
      dsimp only
      omega

/-! ## `casper_tapcp_read_fpga_words_ascii` -/

/-- What holds of the lines as they are built holds after a call. -/
theorem lineLoop_invariant {more : Tapcp → Bool} {newLine : Tapcp → Option (Tapcp × Bool)}
    {P : Tapcp → Prop} (hlidx : ∀ s lidx, P s → P { s with lidx })
    (hnew : ∀ s s' b, P s → more s = true → newLine s = some (s', b) → P s') {n : Nat}
    {s s' : Tapcp} {out : List UInt8} (hs : P s)
    (h : lineLoop more newLine s n = some (s', out)) : P s' := by
  induction n using Nat.strong_induction_on generalizing s out with
  | _ n ih =>
    rw [lineLoop] at h
    split at h
    · next hrun =>
      have hline : ∀ s₁ b, (if s.lidx = 0 then newLine s else some (s, true)) = some (s₁, b) →
          P s₁ := by
        intro s₁ b hif
        split at hif
        · exact hnew s s₁ b hs hrun.2 hif
        · cases hif
          exact hs
      split at h
      · cases h
      · next s₁ hif =>
        cases h
        exact hline _ _ hif
      · next s₁ hif =>
        split at h
        · cases h
        · next out₁ lidx n₁ hcopy =>
          split at h
          · cases h
          · next s₂ rest hloop =>
            cases h
            exact ih n₁ (copyLine_lt hcopy hrun.1) (hlidx _ _ (hline _ _ hif)) hloop
    · cases h
      exact hs

/-- The words read when `nleft` of `total` bytes are left. -/
def ReadingAscii (addr : UInt32) (total : Int) (s : Tapcp) : Prop :=
  s.readFn = .fpgaWordsAscii ∧ s.writeFn = .error ∧ s.nleft % 4 = 0 ∧
    ∃ m : Nat, Accessed addr m s ∧ 4 * m + s.nleft = total ∧ (s.nleft < 0 → m = 0)

/-- Several words read one after another. -/
theorem Accessed.readWords {addr : UInt32} {m : Nat} {s : Tapcp} (h : Accessed addr m s) (k : Nat) :
    Accessed addr (m + k) (readWords s k) where
  ptr := by
    show s.ptr + 4 * UInt32.ofNat k = _
    rw [h.ptr, UInt32.ofNat_add, UInt32.mul_add, UInt32.add_assoc]
  bus := by
    show (s.bus ++ (wordAddrs s.ptr k).map Access.read).map Access.addr = _
    rw [List.map_append, List.map_map, h.bus, wordAddrs_append, h.ptr]
    congr 1
    exact List.map_id _

theorem dumpNewLine_reading {addr : UInt32} {total : Int} {s s' : Tapcp} {b : Bool}
    (h : ReadingAscii addr total s) (hpos : s.nleft > 0)
    (hnew : dumpNewLine (fpgaLineWords env 4) s = some (s', b)) : ReadingAscii addr total s' := by
  obtain ⟨hr, hw, hmul, m, hacc, htot, -⟩ := h
  obtain ⟨n, hn⟩ : ∃ n : Nat, s.nleft = 4 * (n + 1 : Nat) := ⟨(s.nleft / 4 - 1).toNat, by omega⟩
  rw [dumpNewLine] at hnew
  dsimp only at hnew
  rw [fpgaLineWords_four env (s := { s with u32 := s.u32 + 16 }) hn] at hnew
  obtain ⟨lineBuf, -, hs'⟩ := Option.map_eq_some_iff.mp hnew
  cases hs'
  have hleft : (readWords s (min 3 n + 1)).nleft = 4 * (n - min 3 n : Nat) := by
    show s.nleft - 4 * ((min 3 n + 1 : Nat) : Int) = _
    omega
  have hacc' := hacc.readWords (min 3 n + 1)
  refine ⟨hr, hw, ?_, m + (min 3 n + 1), ⟨hacc'.ptr, hacc'.bus⟩, ?_, ?_⟩
  · show (readWords s (min 3 n + 1)).nleft % 4 = 0
    omega
  · show 4 * ((m + (min 3 n + 1) : Nat) : Int) + (readWords s (min 3 n + 1)).nleft = total
    omega
  · show (readWords s (min 3 n + 1)).nleft < 0 → _
    omega

theorem readFpgaWordsAscii_reading {addr : UInt32} {total : Int} {n : Nat} {s s' : Tapcp}
    {out : ReadOut} (h : ReadingAscii addr total s)
    (hcall : readFpgaWordsAscii env s n = some (s', out)) : ReadingAscii addr total s' := by
  obtain ⟨⟨s₁, bytes⟩, hloop, hs₁⟩ := Option.map_eq_some_iff.mp hcall
  cases hs₁
  refine lineLoop_invariant (P := ReadingAscii addr total) ?_ ?_ h hloop
  · rintro s lidx ⟨hr, hw, hmul, m, hacc, htot, hneg⟩
    exact ⟨hr, hw, hmul, m, hacc.same rfl rfl, htot, hneg⟩
  · intro s s' b hs hmore hnew
    exact dumpNewLine_reading env hs (of_decide_eq_true hmore) hnew

/-- A large enough buffer takes all the words. -/
theorem readFpgaWordsAscii_all {s : Tapcp} {n : Nat} (hlidx : s.lidx = 0) (hn : s.nleft = 4 * n) :
    ∃ bytes s' out, readFpgaWordsAscii env s bytes = some (s', out) ∧ s'.nleft = 0 := by
  let lines := fpgaDump env s.u32 s.ptr n
  have hlast : ∀ l, lines.getLast? = some l → l.length = (lines.getLast?.getD []).length := by
    intro l hl
    rw [hl, Option.getD_some]
  have hpending : Pending s [] := Or.inl ⟨hlidx, rfl⟩
  obtain ⟨s', cur, todo, hloop, -, ⟨k, hk, rfl⟩, -, hdrop, -⟩ :=
    (fpgaSource env).lineLoop_spec lines.flatten.length hpending
      ⟨n, hn, rfl⟩ (Or.inr (Or.inl rfl)) hlast
  have hcall := congrArg (Option.map fun r => (r.1, (⟨r.2.length, r.2⟩ : ReadOut))) hloop
  refine ⟨lines.flatten.length, s', _, hcall, ?_⟩
  · -- nothing of the dump is left, so there are no words left
    rw [List.nil_append, List.drop_length, List.append_eq_nil_iff] at hdrop
    cases k with
    | zero => simpa using hk
    | succ k =>
      rw [fpgaDump_succ] at hdrop
      simp at hdrop

/-! ## `casper_tapcp_write_fpga_words_binary` -/

/-- `t` bytes have been written, of at most `total` if that is not negative. -/
structure WritingBinary (addr : UInt32) (total : Int) (t : Nat) (s : Tapcp) : Prop where
  readFn : s.readFn = .error
  writeFn : s.writeFn = .fpgaWordsBinary
  u32 : s.u32 = UInt32.ofNat t
  acc : Accessed addr (t / 4) s
  limited : 0 ≤ total → s.nleft = total - t ∧ 0 ≤ s.nleft
  unlimited : total < 0 → s.nleft = total

/-- A positive `nleft` counts down, a negative one stays. -/
theorem WritingBinary.countdown {addr : UInt32} {total : Int} {t : Nat} {s : Tapcp}
    (hr : s.readFn = .error) (hw : s.writeFn = .fpgaWordsBinary)
    (hu : s.u32 = UInt32.ofNat (t + 1)) (hacc : Accessed addr ((t + 1) / 4) s) (hz : s.nleft ≠ 0)
    (hlim : 0 ≤ total → s.nleft = total - t ∧ 0 ≤ s.nleft) (hunlim : total < 0 → s.nleft = total) :
    WritingBinary addr total (t + 1)
      (if s.nleft > 0 then { s with nleft := s.nleft - 1 } else s) := by
  split
  · refine ⟨hr, hw, hu, hacc.same rfl rfl, fun htot => ?_, fun htot => ?_⟩
    · have := hlim htot
      dsimp only
      omega
    · have := hunlim htot
      omega
  · refine ⟨hr, hw, hu, hacc, fun htot => ?_, hunlim⟩
    have := hlim htot
    omega

/-- A byte is refused when the limit is reached, and otherwise written. -/
theorem writeFpgaByte_spec {addr : UInt32} {total : Int} {t : Nat} {s : Tapcp}
    (h : WritingBinary addr total t s) (c : UInt8) :
    (s.nleft = 0 → writeFpgaByte c s = .error s) ∧
    (s.nleft ≠ 0 → ∃ s', writeFpgaByte c s = .next s' ∧ WritingBinary addr total (t + 1) s') := by
  constructor
  · intro hz
    rw [writeFpgaByte, if_pos hz]
  · intro hz
    have hu : s.u32 + 1 = UInt32.ofNat (t + 1) := by
      rw [h.u32, UInt32.ofNat_add]
      rfl
    have hmod : (s.u32 + 1).toNat % 4 = (t + 1) % 4 := by
      rw [hu, UInt32.toNat_ofNat']
      omega
    rw [writeFpgaByte, if_neg hz]
    dsimp only
    rw [hmod]
    refine ⟨_, rfl, ?_⟩
    by_cases hfull : (t + 1) % 4 = 0
    · -- the fourth byte of a word
      have hdiv : (t + 1) / 4 = t / 4 + 1 := by omega
      rw [if_pos hfull]
      refine WritingBinary.countdown h.readFn h.writeFn hu ?_ hz h.limited h.unlimited
      rw [hdiv]
      exact h.acc.next (a := .write s.ptr _) rfl rfl rfl
    · have hdiv : (t + 1) / 4 = t / 4 := by omega
      rw [if_neg hfull]
      refine WritingBinary.countdown h.readFn h.writeFn hu ?_ hz h.limited h.unlimited
      rw [hdiv]
      exact h.acc.same rfl rfl

theorem writeFpgaWordsBinary_writing {addr : UInt32} {total : Int} {s s' : Tapcp} {pbuf : Pbuf}
    {n : Int} (h : ∃ t, WritingBinary addr total t s)
    (hcall : writeFpgaWordsBinary s pbuf = .ret s' n) : ∃ t, WritingBinary addr total t s' := by
  rw [writeFpgaWordsBinary, walkPbuf_flatten] at hcall
  refine Flow.ret_all (eachByte_all writeFpgaByte (P := fun s => ∃ t, WritingBinary addr total t s)
    ?_ pbuf.flatten h) hcall
  rintro c s ⟨t, ht⟩
  by_cases hz : s.nleft = 0
  · rw [(writeFpgaByte_spec ht c).1 hz]
    exact ⟨t, ht⟩
  · obtain ⟨s₁, hnext, ht₁⟩ := (writeFpgaByte_spec ht c).2 hz
    rw [hnext]
    exact ⟨t + 1, ht₁⟩

/-- Bytes within the limit are all written. -/
theorem eachByte_writing {addr : UInt32} {total : Int} : ∀ (cs : List UInt8) {t : Nat} {s : Tapcp},
    WritingBinary addr total t s → (0 ≤ total → (t + cs.length : Int) ≤ total) →
    ∃ s', eachByte writeFpgaByte cs s = .next s' ∧ WritingBinary addr total (t + cs.length) s'
  | [], _, s, h, _ => ⟨s, rfl, h⟩
  | c :: cs, t, s, h, hfit => by
    rw [List.length_cons] at hfit
    have hz : s.nleft ≠ 0 := by
      rcases Int.lt_or_le total 0 with hneg | hpos
      · have := h.unlimited hneg
        omega
      · have := h.limited hpos
        have := hfit hpos
        omega
    obtain ⟨s₁, hnext, h₁⟩ := (writeFpgaByte_spec h c).2 hz
    obtain ⟨s', hrest, h'⟩ := eachByte_writing cs h₁ (fun hpos => by have := hfit hpos; omega)
    refine ⟨s', ?_, ?_⟩
    · rw [eachByte, hnext]
      exact hrest
    · rwa [List.length_cons, Nat.add_comm cs.length 1, ← Nat.add_assoc]

/-! ## `casper_tapcp_write_fpga_words_ascii` -/

/-- What holds whenever a word is stored holds after a line. -/
theorem lineWords_all {P : Tapcp → Prop}
    (hstore : ∀ s word, P s → ¬(0 ≤ s.nleft ∧ s.nleft < 4) → P (storeWord s word))
    (p : List UInt8) (s : Tapcp) (hs : P s) : (lineWords p s).All fun r => P r.1 := by
  induction p, s using lineWords.induct with
  | case1 s =>
    rw [lineWords]
    trivial
  | case2 s p =>
    rw [lineWords, if_pos rfl]
    exact hs
  | case3 s c p hnl hsp ih =>
    rw [lineWords, if_neg hnl, if_pos hsp]
    exact ih hs
  | case4 s c p hnl hsp hx hlim =>
    rw [lineWords, if_neg hnl, if_neg hsp, dif_pos hx, if_pos hlim]
    exact hs
  | case5 s c p hnl hsp hx hlim word ih =>
    rw [lineWords, if_neg hnl, if_neg hsp, dif_pos hx, if_neg hlim]
    exact ih (hstore s _ hs hlim)
  | case6 s c p hnl hsp hx =>
    rw [lineWords, if_neg hnl, if_neg hsp, dif_neg hx]
    exact hs

section

variable {P : Tapcp → Prop}
  (hstore : ∀ s word, P s → ¬(0 ≤ s.nleft ∧ s.nleft < 4) → P (storeWord s word))
  (htext : ∀ s lineBuf lidx u32, P s → P { s with lineBuf, lidx, u32 })

include hstore htext

/-- What holds whenever a word is stored, and does not depend on the text kept, holds after a
byte. -/
theorem writeAsciiByte_all (c : UInt8) (r : Tapcp × Nat) (hs : P r.1) :
    (writeAsciiByte c r).All fun r => P r.1 := by
  obtain ⟨s, plb⟩ := r
  rw [writeAsciiByte]
  split
  · exact hs
  · split
    · exact hs
    · split
      · exact htext s s.lineBuf 0 1 hs
      · split
        · trivial
        · next lineBuf hset =>
          have hs₁ := htext s lineBuf (s.lidx + 1) s.u32 hs
          dsimp only
          split
          · have hline := lineWords_all hstore lineBuf.bytes _ hs₁
            split
            · next s₂ p hw =>
              rw [hw] at hline
              exact htext s₂ s₂.lineBuf 0 0 hline
            · next s₂ p hw =>
              rw [hw] at hline
              exact hline
            · trivial
          · exact hs₁

@[inherit_doc writeAsciiByte_all]
theorem writeFpgaWordsAscii_all {s s' : Tapcp} {pbuf : Pbuf} {n : Int} (hs : P s)
    (hcall : writeFpgaWordsAscii s pbuf = .ret s' n) : P s' := by
  have hall := eachByte_all writeAsciiByte (P := fun r => P r.1) (writeAsciiByte_all hstore htext)
    pbuf.flatten (s := (s, s.lidx.toNat)) hs
  rw [writeFpgaWordsAscii, walkPbuf_flatten] at hcall
  refine Flow.ret_all ?_ hcall
  cases h : eachByte writeAsciiByte pbuf.flatten (s, s.lidx.toNat) with
  | next r =>
    rw [h] at hall
    exact hall
  | error r =>
    rw [h] at hall
    exact hall
  | fault => trivial

end

/-- `m` words have been written, of at most `total` bytes if that is not negative. -/
def WritingAscii (addr : UInt32) (total : Int) (m : Nat) (s : Tapcp) : Prop :=
  s.readFn = .error ∧ s.writeFn = .fpgaWordsAscii ∧ Accessed addr m s ∧
    (0 ≤ total → 4 * m + s.nleft = total ∧ 0 ≤ s.nleft) ∧ (total < 0 → s.nleft = total)

theorem storeWord_writing {addr : UInt32} {total : Int} {m : Nat} {s : Tapcp} (word : UInt32)
    (h : WritingAscii addr total m s) (hlim : ¬(0 ≤ s.nleft ∧ s.nleft < 4)) :
    WritingAscii addr total (m + 1) (storeWord s word) := by
  obtain ⟨hr, hw, hacc, hpos, hneg⟩ := h
  refine ⟨hr, hw, hacc.next (a := .write s.ptr word) rfl rfl rfl, fun htot => ?_, fun htot => ?_⟩
  · have := hpos htot
    show 4 * ((m + 1 : Nat) : Int) + (if s.nleft > 0 then s.nleft - 4 else s.nleft) = total ∧
      0 ≤ (if s.nleft > 0 then s.nleft - 4 else s.nleft)
    rw [if_pos (by omega)]
    omega
  · have := hneg htot
    show (if s.nleft > 0 then s.nleft - 4 else s.nleft) = total
    rw [if_neg (by omega)]
    exact this

theorem writeFpgaWordsAscii_writing {addr : UInt32} {total : Int} {s s' : Tapcp} {pbuf : Pbuf}
    {n : Int} (h : ∃ m, WritingAscii addr total m s)
    (hcall : writeFpgaWordsAscii s pbuf = .ret s' n) : ∃ m, WritingAscii addr total m s' := by
  refine writeFpgaWordsAscii_all (P := fun s => ∃ m, WritingAscii addr total m s) ?_ ?_ h hcall
  · rintro s word ⟨m, hm⟩ hlim
    exact ⟨m + 1, storeWord_writing word hm hlim⟩
  · rintro s lineBuf lidx u32 ⟨m, hr, hw, hacc, hlim⟩
    exact ⟨m, hr, hw, hacc.same rfl rfl, hlim⟩

/-- A packet with the line `0`. -/
def zeroLine : Pbuf := [[0x30, newline]]

/-- A line that is a single digit stores one word, if the count allows it. -/
theorem writeFpgaWordsAscii_zeroLine {s : Tapcp} (hlidx : s.lidx = 0)
    (hlim : ¬(0 ≤ s.nleft ∧ s.nleft < 4)) :
    ∃ lineBuf, writeFpgaWordsAscii s zeroLine =
      .ret { storeWord s 0 with lineBuf, lidx := 0, u32 := 0 } 0 := by
  obtain ⟨b₁, hset₁, hb₁⟩ := s.lineBuf.set_of_lt (i := 0) (by decide) 0x30
  obtain ⟨b₂, hset₂, hb₂⟩ := b₁.set_of_lt (i := 1) (by decide) newline
  obtain ⟨rest, hrest⟩ : ∃ rest, b₂.bytes = 0x30 :: newline :: rest := by
    rw [hb₂, hb₁]
    match s.lineBuf.bytes, s.lineBuf.size with
    | _ :: _ :: rest, _ => exact ⟨rest, rfl⟩
  have hfirst : writeAsciiByte 0x30 (s, 0) = .next ({ s with lineBuf := b₁, lidx := 1 }, 1) := by
    rw [writeAsciiByte, if_neg (by rw [hlidx]; decide), if_neg (fun h => absurd h.2 (by decide)),
      if_neg (fun h => absurd h.1 (by decide)), hset₁]
    dsimp only
    rw [if_neg (by decide), hlidx]
    rfl
  have hword : ∀ w, hexToU32 (0x30 :: newline :: rest) w = (0, newline :: rest) := by
    intro w
    rw [hexToU32, deref_cons, if_pos (by decide), hexLoop, deref_cons, if_neg (by decide),
      List.tail_cons, hexLoop, deref_cons, if_pos (by decide)]
    rw [show ((0 : UInt32) <<< 4) ||| xdigitValue 0x30 = 0 by decide]
  have hline : ∀ s : Tapcp, ¬(0 ≤ s.nleft ∧ s.nleft < 4) →
      lineWords b₂.bytes s = .next (storeWord s 0, newline :: rest) := by
    intro s hlim
    rw [hrest, lineWords, if_neg (by decide), if_neg (by decide), dif_pos (by decide),
      if_neg hlim]
    dsimp only
    rw [hword, lineWords, if_pos rfl]
  have hsecond : writeAsciiByte newline ({ s with lineBuf := b₁, lidx := 1 }, 1) =
      .next ({ storeWord s 0 with lineBuf := b₂, lidx := 0, u32 := 0 },
        lineBufSize - (newline :: rest).length) := by
    rw [writeAsciiByte, if_neg (show ¬((1 : Int) < 0 ∨ (lineBufSize : Int) ≤ 1) by decide),
      if_neg (fun h => absurd h.1 (show ¬(1 : Int) = 0 by decide)),
      if_neg (fun h => absurd h.1 (by decide)), hset₂]
    dsimp only
    rw [if_pos rfl, hline { s with lineBuf := b₂, lidx := 1 + 1 } hlim]
    rfl
  refine ⟨b₂, ?_⟩
  rw [writeFpgaWordsAscii, walkPbuf_flatten, hlidx]
  show ((eachByte writeAsciiByte [0x30, newline] (s, 0)).map Prod.fst).toWriteOut = _
  rw [eachByte, hfirst]
  dsimp only
  rw [eachByte, hsecond]
  rfl

/-- Lines within the limit are all written. -/
theorem runCalls_zeroLines {addr : UInt32} {total : Int} : ∀ (k : Nat) {m : Nat} {s : Tapcp},
    WritingAscii addr total m s → s.lidx = 0 →
    (0 ≤ total → 4 * ((m : Int) + k) ≤ total) →
    ∃ s', runCalls env (List.replicate k (.write zeroLine)) s = some s' ∧
      WritingAscii addr total (m + k) s'
  | 0, _, s, h, _, _ => ⟨s, rfl, h⟩
  | k + 1, m, s, h, hlidx, hfit => by
    have hlim : ¬(0 ≤ s.nleft ∧ s.nleft < 4) := by
      obtain ⟨-, -, -, hpos, hneg⟩ := h
      rcases Int.lt_or_le total 0 with ht | ht
      · have := hneg ht
        omega
      · have := hpos ht
        have := hfit ht
        omega
    obtain ⟨lineBuf, hcall⟩ := writeFpgaWordsAscii_zeroLine hlidx hlim
    obtain ⟨hr₁, hw₁, hacc₁, hlim₁⟩ := storeWord_writing 0 h hlim
    obtain ⟨s', hrun, h'⟩ := runCalls_zeroLines k
      (s := { storeWord s 0 with lineBuf, lidx := 0, u32 := 0 })
      ⟨hr₁, hw₁, hacc₁.same rfl rfl, hlim₁⟩ rfl (fun ht => by have := hfit ht; omega)
    refine ⟨s', ?_, ?_⟩
    · have hfn : s.writeFn = .fpgaWordsAscii := h.2.1
      rw [List.replicate_succ, runCalls, callWrite, hfn]
      dsimp only
      rw [hcall]
      exact hrun
    · rwa [Nat.add_comm k 1, ← Nat.add_assoc]

/-! ## All four together -/

/-- The state of a transfer of FPGA words, whichever callback it has. -/
def Transferring (addr : UInt32) (total : Int) (write : Bool) (s : Tapcp) : Prop :=
  (write = false ∧ (ReadingBinary addr total s ∨ ReadingAscii addr total s)) ∨
  (write = true ∧ ((∃ t, WritingBinary addr total t s) ∨ ∃ m, WritingAscii addr total m s))

/-- What has been accessed was allowed. -/
theorem Transferring.accessed {addr : UInt32} {total : Int} {write : Bool} {s : Tapcp}
    (h : Transferring addr total write s) :
    ∃ m, Accessed addr m s ∧ ∀ i < m, Allowed write total i := by
  rcases h with ⟨rfl, h | h⟩ | ⟨rfl, ⟨t, h⟩ | ⟨m, h⟩⟩
  · obtain ⟨-, -, m, hacc, htot, hneg⟩ := h
    refine ⟨m, hacc, fun i hi => Or.inl ?_⟩
    rcases Int.lt_or_le s.nleft 0 with hn | hn
    · have := hneg hn
      omega
    · omega
  · obtain ⟨-, -, -, m, hacc, htot, hneg⟩ := h
    refine ⟨m, hacc, fun i hi => Or.inl ?_⟩
    rcases Int.lt_or_le s.nleft 0 with hn | hn
    · have := hneg hn
      omega
    · omega
  · refine ⟨t / 4, h.acc, fun i hi => ?_⟩
    rcases Int.lt_or_le total 0 with ht | ht
    · exact Or.inr ⟨rfl, ht⟩
    · have := h.limited ht
      exact Or.inl (by omega)
  · obtain ⟨-, -, hacc, hpos, -⟩ := h
    refine ⟨m, hacc, fun i hi => ?_⟩
    rcases Int.lt_or_le total 0 with ht | ht
    · exact Or.inr ⟨rfl, ht⟩
    · have := hpos ht
      exact Or.inl (by omega)

/-- **Every call keeps a transfer going.** -/
theorem runCalls_transferring {addr : UInt32} {total : Int} {write : Bool} {calls : List Call}
    {s s' : Tapcp} (h : Transferring addr total write s) (hrun : runCalls env calls s = some s') :
    Transferring addr total write s' := by
  refine runCalls_invariant env ?_ ?_ calls h hrun
  · rintro s bytes s' out (⟨hw, h | h⟩ | ⟨hw, ⟨t, h⟩ | ⟨m, h⟩⟩) hcall
    · rw [callRead, h.1] at hcall
      cases hcall
      exact Or.inl ⟨hw, Or.inl (fpgaWordsLoop_reading env bytes h)⟩
    · rw [callRead, h.1] at hcall
      exact Or.inl ⟨hw, Or.inr (readFpgaWordsAscii_reading env h hcall)⟩
    · rw [callRead, h.readFn] at hcall
      cases hcall
      exact Or.inr ⟨hw, Or.inl ⟨t, h⟩⟩
    · rw [callRead, h.1] at hcall
      cases hcall
      exact Or.inr ⟨hw, Or.inr ⟨m, h⟩⟩
  · rintro s pbuf s' n (⟨hw, h | h⟩ | ⟨hw, ⟨t, h⟩ | ⟨m, h⟩⟩) hcall
    · rw [callWrite, h.2.1] at hcall
      cases hcall
      exact Or.inl ⟨hw, Or.inl h⟩
    · rw [callWrite, h.2.1] at hcall
      cases hcall
      exact Or.inl ⟨hw, Or.inr h⟩
    · rw [callWrite, h.writeFn] at hcall
      exact Or.inr ⟨hw, Or.inl (writeFpgaWordsBinary_writing ⟨t, h⟩ hcall)⟩
    · rw [callWrite, h.2.1] at hcall
      exact Or.inr ⟨hw, Or.inr (writeFpgaWordsAscii_writing ⟨m, h⟩ hcall)⟩

/-- The beginning of a transfer, by the callback installed. -/
inductive Opened (addr : UInt32) (total : Int) : Bool → Tapcp → Prop
  | readBinary {s} (h : ReadingBinary addr total s) (hleft : s.nleft = total) :
    Opened addr total false s
  | readAscii {s} (h : ReadingAscii addr total s) (hleft : s.nleft = total) (hlidx : s.lidx = 0) :
    Opened addr total false s
  | writeBinary {s} (h : WritingBinary addr total 0 s) : Opened addr total true s
  | writeAscii {s} (h : WritingAscii addr total 0 s) (hlidx : s.lidx = 0) : Opened addr total true s

/-- What `openWords` leaves is the beginning of a transfer. -/
theorem openWords_opened {s : Tapcp} (hr : s.readFn = .error) (hw : s.writeFn = .error)
    (hmul : s.nleft % 4 = 0) :
    Opened s.ptr s.nleft s.write { openWords s with bus := [] } := by
  have hacc : ∀ s' : Tapcp, s'.ptr = s.ptr → s'.bus = [] → Accessed s.ptr 0 s' := by
    intro s' hptr hbus
    refine ⟨?_, ?_⟩
    · rw [hptr]
      simp
    · rw [hbus]
      rfl
  rw [openWords]
  cases s.write with
  | false =>
    cases s.binary with
    | true =>
      refine .readBinary ⟨rfl, hw, 0, hacc _ rfl rfl, ?_, fun _ => rfl⟩ rfl
      show 4 * ((0 : Nat) : Int) + 4 * (s.nleft / 4) = s.nleft
      omega
    | false =>
      refine .readAscii ⟨rfl, hw, hmul, 0, hacc _ rfl rfl, ?_, fun _ => rfl⟩ rfl rfl
      show 4 * ((0 : Nat) : Int) + s.nleft = s.nleft
      omega
  | true =>
    cases s.binary with
    | true =>
      refine .writeBinary ⟨hr, rfl, rfl, hacc _ rfl rfl, fun h => ?_, fun _ => rfl⟩
      show s.nleft = s.nleft - ((0 : Nat) : Int) ∧ 0 ≤ s.nleft
      omega
    | false =>
      refine .writeAscii ⟨hr, rfl, hacc _ rfl rfl, fun h => ?_, fun _ => rfl⟩ rfl
      show 4 * ((0 : Nat) : Int) + s.nleft = s.nleft ∧ 0 ≤ s.nleft
      omega

theorem Opened.transferring {addr : UInt32} {total : Int} {write : Bool} {s : Tapcp}
    (h : Opened addr total write s) : Transferring addr total write s := by
  cases h with
  | readBinary h hleft => exact Or.inl ⟨rfl, Or.inl h⟩
  | readAscii h hleft hlidx => exact Or.inl ⟨rfl, Or.inr h⟩
  | writeBinary h => exact Or.inr ⟨rfl, Or.inl ⟨0, h⟩⟩
  | writeAscii h hlidx => exact Or.inr ⟨rfl, Or.inr ⟨0, h⟩⟩

/-- Some run accesses word `i` and the words before it. -/
def Reaches (addr : UInt32) (i : Nat) (s : Tapcp) : Prop :=
  ∃ calls s' m, runCalls env calls s = some s' ∧ Accessed addr m s' ∧ i < m

/-- One call with a buffer for the words up to `i`. -/
theorem ReadingBinary.reaches {addr : UInt32} {total : Int} {s : Tapcp} {i : Nat}
    (h : ReadingBinary addr total s) (hleft : s.nleft = total) (hi : 4 * ((i : Int) + 1) ≤ total) :
    Reaches env addr i s := by
  obtain ⟨-, -, m, hacc, htot, -⟩ := fpgaWordsLoop_reading env (4 * (i + 1)) h
  rw [fpgaWordsLoop_nleft env _ (by omega)] at htot
  refine ⟨[.read (4 * (i + 1))], _, m, ?_, hacc, by omega⟩
  rw [runCalls, callRead, h.1]
  rfl

/-- One call with a buffer for the whole dump. -/
theorem ReadingAscii.reaches {addr : UInt32} {total : Int} {s : Tapcp} {i : Nat}
    (h : ReadingAscii addr total s) (hleft : s.nleft = total) (hlidx : s.lidx = 0)
    (hi : 4 * ((i : Int) + 1) ≤ total) : Reaches env addr i s := by
  have hmul := h.2.2.1
  obtain ⟨bytes, s', out, hcall, hzero⟩ :=
    readFpgaWordsAscii_all env (n := (total / 4).toNat) hlidx (by omega)
  obtain ⟨-, -, -, m, hacc, htot, -⟩ := readFpgaWordsAscii_reading env h hcall
  refine ⟨[.read bytes], s', m, ?_, hacc, by omega⟩
  rw [runCalls, callRead, h.1]
  dsimp only
  rw [hcall]
  rfl

/-- One call with a packet of so many bytes. -/
theorem WritingBinary.reaches {addr : UInt32} {total : Int} {s : Tapcp} {i : Nat}
    (h : WritingBinary addr total 0 s) (hi : 0 ≤ total → 4 * ((i : Int) + 1) ≤ total) :
    Reaches env addr i s := by
  obtain ⟨s', heach, h'⟩ := eachByte_writing (List.replicate (4 * (i + 1)) 0) h (fun ht => by
    have := hi ht
    rw [List.length_replicate]
    omega)
  refine ⟨[.write [List.replicate (4 * (i + 1)) 0]], s', _, ?_, h'.acc, ?_⟩
  · rw [runCalls, callWrite, h.writeFn]
    dsimp only
    rw [writeFpgaWordsBinary, walkPbuf_flatten, List.flatten_singleton, heach]
    rfl
  · rw [List.length_replicate]
    omega

/-- A call for each word. -/
theorem WritingAscii.reaches {addr : UInt32} {total : Int} {s : Tapcp} {i : Nat}
    (h : WritingAscii addr total 0 s) (hlidx : s.lidx = 0)
    (hi : 0 ≤ total → 4 * ((i : Int) + 1) ≤ total) : Reaches env addr i s := by
  obtain ⟨s', hrun, h'⟩ := runCalls_zeroLines env (i + 1) h hlidx (fun ht => by
    have := hi ht
    omega)
  exact ⟨_, s', _, hrun, h'.2.2.1, by omega⟩

/-- Every word that the count allows is reached in some run. -/
theorem Opened.reaches {addr : UInt32} {total : Int} {write : Bool} {s : Tapcp}
    (h : Opened addr total write s) {i : Nat} (hi : Allowed write total i) :
    Reaches env addr i s := by
  cases h with
  | readBinary h hleft =>
    rcases hi with hi | ⟨hw, -⟩
    · exact h.reaches env hleft hi
    · cases hw
  | readAscii h hleft hlidx =>
    rcases hi with hi | ⟨hw, -⟩
    · exact h.reaches env hleft hlidx hi
    · cases hw
  | writeBinary h =>
    refine h.reaches env fun ht => ?_
    rcases hi with hi | ⟨-, hi⟩ <;> omega
  | writeAscii h hlidx =>
    refine h.reaches env hlidx fun ht => ?_
    rcases hi with hi | ⟨-, hi⟩ <;> omega

/--
**The words accessed in the runs of a transfer are those that its count allows.**
-/
theorem accessesWithin_iff {s : Tapcp} (hr : s.readFn = .error) (hw : s.writeFn = .error)
    (hmul : s.nleft % 4 = 0) (inside : UInt32 → Prop) :
    AccessesWithin env (openWords s) inside ↔
      ∀ i, Allowed s.write s.nleft i → inside (s.ptr + 4 * UInt32.ofNat i) := by
  have hopened := openWords_opened hr hw hmul
  constructor
  · intro h i hi
    obtain ⟨calls, s', m, hrun, hacc, him⟩ := hopened.reaches env hi
    have hmem : s.ptr + 4 * UInt32.ofNat i ∈ s'.bus.map Access.addr := by
      rw [hacc.bus, mem_wordAddrs]
      exact ⟨i, him, rfl⟩
    obtain ⟨a, ha, haddr⟩ := List.mem_map.mp hmem
    rw [← haddr]
    exact h calls s' hrun a ha
  · intro h calls s' hrun a ha
    obtain ⟨m, hacc, hallowed⟩ := (runCalls_transferring env hopened.transferring hrun).accessed
    have hmem : a.addr ∈ s'.bus.map Access.addr := List.mem_map_of_mem ha
    rw [hacc.bus, mem_wordAddrs] at hmem
    obtain ⟨i, hi, haddr⟩ := hmem
    rw [haddr]
    exact h i (hallowed i hi)

end MlibDevel.Jam
