import MlibDevel.Jam.Regions

/-!
# The bounds of the read callbacks

The TFTP server gives a read callback a buffer of 512 bytes.  A callback must not store more than
that, must not have `send_spi` fill a buffer with more than it holds, and must return -1 or the
number of bytes.

`Serving` says for each callback what keeps it within bounds.  It holds of what `tftpOpen` leaves
except for two kinds of file names (`Overlong`), whose length fields become a negative `nleft`; a
negative `int` is a large number for `send_spi`.  `tftpOpen_reads_bounded_iff` puts this together.
-/

namespace MlibDevel.Jam

open Lib

variable (env : Env)

/-! ## What is to hold -/

/-- The transfer is not larger than the buffer. -/
def SpiCall.Fits : SpiCall → Prop
  | .tftpBuf len => len.toNat ≤ tftpMaxPayloadSize
  | .spiBuf len => len.toNat ≤ spiBufLen
  | .close => True

/-- The bytes stored and the value returned fit the server's buffer. -/
def ReadOut.Bounded (out : ReadOut) : Prop :=
  out.buf.length ≤ tftpMaxPayloadSize ∧
    (out.ret = -1 ∨ (0 ≤ out.ret ∧ out.ret ≤ tftpMaxPayloadSize))

/-- Some reads of the server one after another. -/
def readBlocks : Nat → Tapcp → Option (Tapcp × List ReadOut)
  | 0, s => some (s, [])
  | k + 1, s =>
    match callRead env s tftpMaxPayloadSize with
    | none => none
    | some (s, out) => (readBlocks k s).map fun r => (r.1, out :: r.2)

/--
All reads of an open file are within bounds.  Reads return, except that `/listdev` reads whatever is
linked in as `core_info`, which may be no list at all.
-/
def ReadsBounded (s : Tapcp) : Prop :=
  ∀ k, (s.readFn ≠ .listdevAscii → (readBlocks env k { s with spi := [] }).isSome) ∧
    ∀ s' outs, readBlocks env k { s with spi := [] } = some (s', outs) →
      (∀ out ∈ outs, out.Bounded) ∧ ∀ c ∈ s'.spi, c.Fits

/-! ## Lines -/

theorem copyLine_length {b : LineBuf} : ∀ {n lidx : Nat} {out : List UInt8} {lidx' n' : Nat},
    copyLine b lidx n = some (out, lidx', n') → out.length + n' = n
  | 0, _, _, _, _, h => by
    cases h
    rfl
  | n + 1, lidx, out, lidx', n', h => by
    rw [copyLine] at h
    split at h
    · cases h
    · split at h
      · cases h
        rw [List.length_singleton, Nat.add_comm]
      · split at h
        · cases h
        · next cs l r hrec =>
          cases h
          have := copyLine_length hrec
          rw [List.length_cons]
          omega

theorem lineLoop_length {more : Tapcp → Bool} {newLine : Tapcp → Option (Tapcp × Bool)} {n : Nat}
    {s s' : Tapcp} {out : List UInt8} (h : lineLoop more newLine s n = some (s', out)) :
    out.length ≤ n := by
  induction n using Nat.strong_induction_on generalizing s out with
  | _ n ih =>
    rw [lineLoop] at h
    split at h
    · next hrun =>
      split at h
      · cases h
      · cases h
        exact Nat.zero_le _
      · split at h
        · cases h
        · next out₁ lidx n₁ hcopy =>
          split at h
          · cases h
          · next s₂ rest hloop =>
            cases h
            have hlen := copyLine_length hcopy
            have hrest := ih n₁ (copyLine_lt hcopy hrun.1) hloop
            rw [List.length_append]
            omega
    · cases h
      exact Nat.zero_le _

/-- A callback that sends lines is within bounds. -/
theorem readLinesOf_bounded {more : Tapcp → Bool} {newLine : Tapcp → Option (Tapcp × Bool)}
    {s s' : Tapcp} {out : ReadOut}
    (h : readLinesOf more newLine s tftpMaxPayloadSize = some (s', out)) : out.Bounded := by
  obtain ⟨⟨s₁, bytes⟩, hloop, hout⟩ := Option.map_eq_some_iff.mp h
  cases hout
  have hlen := lineLoop_length hloop
  exact ⟨hlen, Or.inr ⟨Int.natCast_nonneg _, Int.ofNat_le.mpr hlen⟩⟩

/-- The state of a callback that sends lines of a dump. -/
def Dumping (Src : Tapcp → List (List UInt8) → Prop) (s : Tapcp) : Prop :=
  s.nleft < 0 ∨ ∃ lines pos, LinesAt Src lines s pos

/-- A callback that sends lines of a dump returns, and goes on doing so. -/
theorem Dumping.read {newLine : Tapcp → Option (Tapcp × Bool)}
    {Src : Tapcp → List (List UInt8) → Prop} (h : LineSource (fun s => s.nleft > 0) newLine Src)
    {s : Tapcp} (hs : Dumping Src s) {n : Nat} (hn : 0 < n) :
    ∃ s' out, readLinesOf (fun s => s.nleft > 0) newLine s n = some (s', out) ∧ Dumping Src s' := by
  rcases hs with hneg | ⟨lines, pos, hs⟩
  · refine ⟨s, ⟨0, []⟩, ?_, Or.inl hneg⟩
    rw [readLinesOf, lineLoop, dif_neg]
    · rfl
    · rintro ⟨-, hmore⟩
      have := of_decide_eq_true hmore
      omega
  · have hstops := h.stopsAfter lines
    obtain ⟨s', out, pos', hread, hs'⟩ : ∃ s' out pos',
        blockOf (readLinesOf (fun s => s.nleft > 0) newLine) s n = some (s', out) ∧
          LinesAt Src lines s' pos' := by
      rcases Nat.lt_or_ge (lastStart lines) pos with hlt | hle
      · obtain ⟨s', hread, hs'⟩ := hstops.stops hs hlt n
        exact ⟨s', _, _, hread, hs'⟩
      · obtain ⟨s', hread, hs'⟩ := hstops.serves hs hle n hn
        exact ⟨s', _, _, hread, hs'⟩
    obtain ⟨⟨s₁, out₁⟩, hcall, hout⟩ := Option.map_eq_some_iff.mp hread
    cases hout
    exact ⟨s₁, out₁, hcall, Or.inr ⟨lines, pos', hs'⟩⟩

/-- Neither the callback nor the record of SPI transfers has changed. -/
def Kept (s s' : Tapcp) : Prop := s'.readFn = s.readFn ∧ s'.spi = s.spi

theorem fpgaLineWords_kept : ∀ (k : Nat) (s : Tapcp), Kept s (fpgaLineWords env k s).1
  | 0, _ => ⟨rfl, rfl⟩
  | k + 1, s => by
    rw [fpgaLineWords]
    dsimp only
    split
    · exact ⟨rfl, rfl⟩
    · obtain ⟨hr, hs⟩ := fpgaLineWords_kept k
        { s with ptr := s.ptr + 4, nleft := s.nleft - 4, bus := s.bus ++ [.read s.ptr] }
      exact ⟨hr, hs⟩

theorem memLineBytes_kept : ∀ (k : Nat) (s : Tapcp), Kept s (memLineBytes env k s).1
  | 0, _ => ⟨rfl, rfl⟩
  | k + 1, s => by
    rw [memLineBytes]
    dsimp only
    split
    · exact ⟨rfl, rfl⟩
    · obtain ⟨hr, hs⟩ := memLineBytes_kept k { s with ptr := s.ptr + 1, nleft := s.nleft - 1 }
      exact ⟨hr, hs⟩

theorem dumpNewLine_kept {data : Tapcp → Tapcp × List UInt8} (hdata : ∀ s, Kept s (data s).1)
    {s s' : Tapcp} {b : Bool} (h : dumpNewLine data s = some (s', b)) : Kept s s' := by
  obtain ⟨lineBuf, -, hs'⟩ := Option.map_eq_some_iff.mp h
  cases hs'
  exact hdata { s with u32 := s.u32 + 16 }

theorem listdevNewLine_kept {s s' : Tapcp} {b : Bool} (h : listdevNewLine s = some (s', b)) :
    Kept s s' := by
  unfold listdevNewLine at h
  split at h
  · cases h
  · cases h
    exact ⟨rfl, rfl⟩
  · split at h
    · cases h
    · obtain ⟨lineBuf, -, hs'⟩ := Option.map_eq_some_iff.mp h
      cases hs'
      exact ⟨rfl, rfl⟩

theorem readLinesOf_kept {more : Tapcp → Bool} {newLine : Tapcp → Option (Tapcp × Bool)}
    (hnew : ∀ s s' b, newLine s = some (s', b) → Kept s s') {n : Nat} {s s' : Tapcp} {out : ReadOut}
    (h : readLinesOf more newLine s n = some (s', out)) : Kept s s' := by
  obtain ⟨⟨s₁, bytes⟩, hloop, hout⟩ := Option.map_eq_some_iff.mp h
  cases hout
  refine lineLoop_invariant (P := Kept s) (fun _ _ h => h) ?_ ⟨rfl, rfl⟩ hloop
  intro t t' b ht _ hb
  obtain ⟨hr, hs⟩ := hnew t t' b hb
  exact ⟨hr.trans ht.1, hs.trans ht.2⟩

/-! ## `casper_tapcp_read_flashcmd_binary` -/

/-- Behind the bytes in `spi_buf` there are less than 2³¹ more to send. -/
def FlashcmdLeft (s : Tapcp) : Prop :=
  ∃ more < 2 ^ 31, s.nleft = toInt32 (s.u32 + UInt32.ofNat more)

theorem toNat_spiRefill {n : Nat} : (spiRefill n).toNat = min n spiBufLen := by
  unfold spiRefill
  split
  · have :=
      toNat_ofInt32_of_mem (n := n) (by omega) (by unfold spiBufLen tftpMaxFilenameLen at *; omega)
    omega
  · have := toNat_ofInt32_of_mem (n := spiBufLen) (by omega) (by decide)
    omega

theorem flashcmdRefill_left {s : Tapcp} (h : FlashcmdLeft s) (hfit : ∀ c ∈ s.spi, c.Fits) :
    FlashcmdLeft (flashcmdRefill env s) ∧ ∀ c ∈ (flashcmdRefill env s).spi, c.Fits := by
  rw [flashcmdRefill]
  split
  · next hempty =>
    obtain ⟨more, hmore, hleft⟩ := h
    have hm : (UInt32.ofNat more).toNat = more := UInt32.toNat_ofNat_of_lt' (by
      unfold UInt32.size
      omega)
    have hnleft : s.nleft = more := by
      rw [hleft, hempty.1, UInt32.zero_add, toInt32_of_lt (by omega), hm]
    have hlen : (spiRefill s.nleft).toNat = min more spiBufLen := by
      rw [hnleft]
      exact toNat_spiRefill
    constructor
    · refine ⟨more - min more spiBufLen, by omega, ?_⟩
      have hsum : spiRefill s.nleft + UInt32.ofNat (more - min more spiBufLen) =
          UInt32.ofNat more := by
        apply UInt32.toNat_inj.mp
        rw [UInt32.toNat_add, hlen, UInt32.toNat_ofNat', hm]
        omega
      show s.nleft = toInt32 (spiRefill s.nleft + UInt32.ofNat (more - min more spiBufLen))
      rw [hsum, toInt32_of_lt (by omega), hm, hnleft]
    · intro c hc
      rcases List.mem_append.mp hc with hc | hc
      · exact hfit c hc
      · rw [List.mem_singleton.mp hc]
        show (spiRefill s.nleft).toNat ≤ spiBufLen
        omega
  · exact ⟨h, hfit⟩

/-- The callback stays installed. -/
theorem flashcmdRefill_readFn (s : Tapcp) : (flashcmdRefill env s).readFn = s.readFn := by
  unfold flashcmdRefill
  split <;> rfl

/-- The loop sends what fits in the buffer and keeps its bounds. -/
theorem flashcmdLoop_left (bytes : Nat) {s s' : Tapcp} {out : List UInt8} {left : Nat}
    (h : FlashcmdLeft s) (hfit : ∀ c ∈ s.spi, c.Fits)
    (hloop : flashcmdLoop env s bytes = (s', out, left)) :
    out.length + left = bytes ∧ FlashcmdLeft s' ∧ (∀ c ∈ s'.spi, c.Fits) ∧
      s'.readFn = s.readFn := by
  induction bytes using Nat.strong_induction_on generalizing s s' out left with
  | _ bytes ih =>
    rw [flashcmdLoop] at hloop
    split at hloop
    · next hrun =>
      have hupos : 0 < s.u32.toNat :=
        Nat.pos_of_ne_zero fun he => hrun.1 (UInt32.toNat_inj.mp he)
      dsimp only at hloop
      generalize hn : (if bytes < s.u32.toNat then bytes else s.u32.toNat) = n at hloop
      have hn' : 0 < n ∧ n ≤ bytes := by
        split at hn <;> omega
      let sent : Tapcp := { s with
        ptr := s.ptr + UInt32.ofNat n
        u32 := s.u32 - UInt32.ofNat n
        nleft := wrap32 (s.nleft - n) }
      have hsent : FlashcmdLeft sent := by
        obtain ⟨more, hmore, hleft⟩ := h
        refine ⟨more, hmore, ?_⟩
        show wrap32 (s.nleft - n) = toInt32 (s.u32 - UInt32.ofNat n + UInt32.ofNat more)
        rw [hleft, wrap32_toInt32_sub, UInt32.sub_eq_add_neg, UInt32.sub_eq_add_neg,
          UInt32.add_assoc, UInt32.add_assoc, UInt32.add_comm (UInt32.ofNat more)]
      obtain ⟨hleft, hfit'⟩ := flashcmdRefill_left env hsent hfit
      rcases hrest : flashcmdLoop env (flashcmdRefill env sent) (bytes - n) with ⟨s₁, rest, left₁⟩
      obtain ⟨hlen, hleft₁, hfit₁, hfn⟩ := ih (bytes - n) (by omega) hleft hfit' hrest
      rw [hrest] at hloop
      dsimp only at hloop
      cases hloop
      refine ⟨?_, hleft₁, hfit₁, ?_⟩
      · rw [List.length_append, spiBytes, List.length_map, List.length_range]
        omega
      · rw [hfn, flashcmdRefill_readFn]
    · cases hloop
      exact ⟨Nat.zero_add _, h, hfit, rfl⟩

/-! ## All callbacks -/

/-- What keeps the installed callback within bounds. -/
inductive Serving : Tapcp → Prop
  | error {s} (hfn : s.readFn = .error) : Serving s
  | help {s} (hfn : s.readFn = .help) (hleft : 0 ≤ s.nleft) : Serving s
  | temp {s} (hfn : s.readFn = .temp) : Serving s
  | listdev {s} (hfn : s.readFn = .listdevAscii) : Serving s
  | flash {s} (hfn : s.readFn = .flashBytesBinary) (hleft : 0 ≤ s.nleft) : Serving s
  | memBinary {s} (hfn : s.readFn = .memBytesBinary) : Serving s
  | memAscii {s} (hfn : s.readFn = .memBytesAscii) (hdump : Dumping (MemSrc env) s) : Serving s
  | fpgaBinary {s} (hfn : s.readFn = .fpgaWordsBinary) : Serving s
  | fpgaAscii {s} (hfn : s.readFn = .fpgaWordsAscii) (hdump : Dumping (FpgaSrc env) s) : Serving s
  | flashcmd {s} (hfn : s.readFn = .flashcmdBinary) (hleft : s.u32 = 0 ∨ FlashcmdLeft s) : Serving s

theorem bounded_of_length {out : List UInt8} (h : out.length ≤ tftpMaxPayloadSize) :
    ReadOut.Bounded ⟨out.length, out⟩ :=
  ⟨h, Or.inr ⟨Int.natCast_nonneg _, Int.ofNat_le.mpr h⟩⟩

theorem memBytesLoop_spec : ∀ (n : Nat) (s : Tapcp),
    (memBytesLoop env n s).2.length ≤ n ∧ Kept s (memBytesLoop env n s).1
  | 0, _ => ⟨Nat.le_refl _, rfl, rfl⟩
  | n + 1, s => by
    rw [memBytesLoop]
    split
    · obtain ⟨hlen, hr, hs⟩ := memBytesLoop_spec n { s with ptr := s.ptr + 1, nleft := s.nleft - 1 }
      exact ⟨Nat.succ_le_succ hlen, hr, hs⟩
    · exact ⟨Nat.zero_le _, rfl, rfl⟩

theorem fpgaWordsLoop_spec : ∀ (n : Nat) (s : Tapcp),
    (fpgaWordsLoop env n s).2.length ≤ n ∧ Kept s (fpgaWordsLoop env n s).1
  | 0, _ => ⟨Nat.le_refl _, rfl, rfl⟩
  | n + 1, s => by
    rw [fpgaWordsLoop]
    split
    · dsimp only
      split
      · obtain ⟨hlen, hr, hs⟩ := fpgaWordsLoop_spec n
          { s with
            nleft := s.nleft - 1, readWord := env.load32 s.ptr, ptr := s.ptr + 4
            bus := s.bus ++ [.read s.ptr] }
        exact ⟨Nat.succ_le_succ hlen, hr, hs⟩
      · obtain ⟨hlen, hr, hs⟩ := fpgaWordsLoop_spec n { s with nleft := s.nleft - 1 }
        exact ⟨Nat.succ_le_succ hlen, hr, hs⟩
    · exact ⟨Nat.zero_le _, rfl, rfl⟩

theorem length_tempText (t : Int) : (tempText t).length ≤ 6 := by
  unfold tempText
  split <;> split <;> simp

/-- The outcome of a call that is within bounds and leaves the next one within bounds. -/
structure Served (s s' : Tapcp) (out : ReadOut) : Prop where
  bounded : out.Bounded
  fits : ∀ c ∈ s'.spi, c.Fits
  readFn : s'.readFn = s.readFn
  serving : Serving env s'

theorem Served.of_kept {s s' : Tapcp} {out : ReadOut} (hfit : ∀ c ∈ s.spi, c.Fits)
    (hb : out.Bounded) (hk : Kept s s') (hs : Serving env s') : Served env s s' out := by
  refine ⟨hb, ?_, hk.1, hs⟩
  rw [hk.2]
  exact hfit

/-- The smaller of a buffer size and a count that is not negative. -/
theorem toNat_ofInt32_min {len nleft : Int} (hleft : 0 ≤ nleft)
    (hlen : len = tftpMaxPayloadSize ∨ len = nleft) (hle : len ≤ tftpMaxPayloadSize) :
    0 ≤ len ∧ ((ofInt32 len).toNat : Int) = len := by
  unfold tftpMaxPayloadSize at *
  have h₀ : 0 ≤ len := by omega
  exact ⟨h₀, toNat_ofInt32_of_mem h₀ (by omega)⟩

theorem readHelp_served {s : Tapcp} (hfn : s.readFn = .help) (hleft : 0 ≤ s.nleft)
    (hfit : ∀ c ∈ s.spi, c.Fits) :
    Served env s (readHelp env s tftpMaxPayloadSize).1 (readHelp env s tftpMaxPayloadSize).2 := by
  rw [readHelp]
  generalize hl : (if (tftpMaxPayloadSize : Int) < s.nleft then (tftpMaxPayloadSize : Int)
    else s.nleft) = len
  have hlen : (len = tftpMaxPayloadSize ∨ len = s.nleft) ∧ len ≤ tftpMaxPayloadSize ∧
      len ≤ s.nleft := by
    split at hl <;> omega
  obtain ⟨h₀, hof⟩ := toNat_ofInt32_min hleft hlen.1 hlen.2.1
  refine .of_kept env hfit ⟨?_, Or.inr ⟨h₀, hlen.2.1⟩⟩ ⟨rfl, rfl⟩ (.help hfn ?_)
  · show (env.bytesAt s.ptr (ofInt32 len).toNat).length ≤ tftpMaxPayloadSize
    rw [Env.bytesAt, List.length_map, List.length_range]
    omega
  · show 0 ≤ s.nleft - len
    omega

theorem readTemp_served {s : Tapcp} (hfn : s.readFn = .temp) (hfit : ∀ c ∈ s.spi, c.Fits) :
    Served env s (readTemp env s tftpMaxPayloadSize).1 (readTemp env s tftpMaxPayloadSize).2 := by
  rw [readTemp, if_neg (by decide)]
  refine .of_kept env hfit (bounded_of_length ?_) ⟨rfl, rfl⟩ (.temp hfn)
  split
  · exact (by decide : 4 ≤ tftpMaxPayloadSize)
  · exact Nat.le_trans (length_tempText _) (by decide)

theorem readListdevAscii_served {s s' : Tapcp} {out : ReadOut} (hfn : s.readFn = .listdevAscii)
    (hfit : ∀ c ∈ s.spi, c.Fits)
    (hcall : readListdevAscii env s tftpMaxPayloadSize = some (s', out)) : Served env s s' out := by
  have hlines : ∀ t : Tapcp, Kept s t →
      readLinesOf (fun _ => true) listdevNewLine t tftpMaxPayloadSize = some (s', out) →
      Served env s s' out := by
    intro t ht hread
    have hk := readLinesOf_kept (fun _ _ _ => listdevNewLine_kept) hread
    have hk' : Kept s s' := ⟨hk.1.trans ht.1, hk.2.trans ht.2⟩
    exact .of_kept env hfit (readLinesOf_bounded hread) hk' (.listdev (hk'.1.trans hfn))
  unfold readListdevAscii at hcall
  by_cases hfirst : s.lidx = -1
  · rw [if_pos hfirst] at hcall
    split at hcall
    · cases hcall
    · refine hlines _ ?_ hcall
      exact ⟨rfl, rfl⟩
  · rw [if_neg hfirst] at hcall
    exact hlines s ⟨rfl, rfl⟩ hcall

theorem readFlashBytesBinary_served {s : Tapcp} (hfn : s.readFn = .flashBytesBinary)
    (hleft : 0 ≤ s.nleft) (hfit : ∀ c ∈ s.spi, c.Fits) :
    Served env s (readFlashBytesBinary env s tftpMaxPayloadSize).1
      (readFlashBytesBinary env s tftpMaxPayloadSize).2 := by
  rw [readFlashBytesBinary]
  generalize hl : (if s.nleft > (tftpMaxPayloadSize : Int) then (tftpMaxPayloadSize : Int)
    else s.nleft) = len
  have hlen : (len = tftpMaxPayloadSize ∨ len = s.nleft) ∧ len ≤ tftpMaxPayloadSize ∧
      len ≤ s.nleft := by
    split at hl <;> omega
  obtain ⟨h₀, hof⟩ := toNat_ofInt32_min hleft hlen.1 hlen.2.1
  split
  · exact .of_kept env hfit (bounded_of_length (Nat.zero_le _ : ([] : List UInt8).length ≤ _))
      ⟨rfl, rfl⟩
      (.flash hfn hleft)
  · refine ⟨⟨?_, Or.inr ⟨h₀, hlen.2.1⟩⟩, ?_, rfl, .flash hfn ?_⟩
    · rw [List.length_map, List.length_range]
      omega
    · intro c hc
      rcases List.mem_append.mp hc with hc | hc
      · exact hfit c hc
      · rw [List.mem_singleton.mp hc]
        show (ofInt32 len).toNat ≤ tftpMaxPayloadSize
        omega
    · show 0 ≤ s.nleft - len
      omega

theorem readFlashcmdBinary_served {s : Tapcp} (hfn : s.readFn = .flashcmdBinary)
    (hleft : s.u32 = 0 ∨ FlashcmdLeft s) (hfit : ∀ c ∈ s.spi, c.Fits) :
    Served env s (readFlashcmdBinary env s tftpMaxPayloadSize).1
      (readFlashcmdBinary env s tftpMaxPayloadSize).2 := by
  rw [readFlashcmdBinary]
  rcases hloop : flashcmdLoop env s tftpMaxPayloadSize with ⟨s₁, out, left⟩
  obtain ⟨hlen, hleft₁, hfit₁, hfn₁⟩ : out.length + left = tftpMaxPayloadSize ∧
      (s₁.u32 = 0 ∨ FlashcmdLeft s₁) ∧ (∀ c ∈ s₁.spi, c.Fits) ∧ s₁.readFn = s.readFn := by
    rcases hleft with hu | hleft
    · rw [flashcmdLoop, dif_neg (fun hrun => hrun.1 hu)] at hloop
      cases hloop
      exact ⟨Nat.zero_add _, Or.inl hu, hfit, rfl⟩
    · obtain ⟨hlen, hleft₁, hfit₁, hfn₁⟩ := flashcmdLoop_left env _ hleft hfit hloop
      exact ⟨hlen, Or.inr hleft₁, hfit₁, hfn₁⟩
  dsimp only
  have hb : ReadOut.Bounded ⟨out.length, out⟩ := bounded_of_length (by omega)
  split
  · refine ⟨hb, ?_, hfn₁, .flashcmd (hfn₁.trans hfn) hleft₁⟩
    intro c hc
    rcases List.mem_append.mp hc with hc | hc
    · exact hfit₁ c hc
    · rw [List.mem_singleton.mp hc]
      trivial
  · exact ⟨hb, hfit₁, hfn₁, .flashcmd (hfn₁.trans hfn) hleft₁⟩

/-- A callback that sends a dump returns, and its outcome is within bounds. -/
theorem dump_served {data : Tapcp → Tapcp × List UInt8} {Src : Tapcp → List (List UInt8) → Prop}
    (hsrc : LineSource (fun s => s.nleft > 0) (dumpNewLine data) Src)
    (hdata : ∀ s, Kept s (data s).1) {s : Tapcp} (hdump : Dumping Src s)
    (hserving : ∀ s', Kept s s' → Dumping Src s' → Serving env s') (hfit : ∀ c ∈ s.spi, c.Fits) :
    ∃ s' out, readLinesOf (fun s => s.nleft > 0) (dumpNewLine data) s tftpMaxPayloadSize =
      some (s', out) ∧ Served env s s' out := by
  obtain ⟨s', out, hread, hdump'⟩ := hdump.read hsrc (n := tftpMaxPayloadSize) (by decide)
  have hk := readLinesOf_kept (fun _ _ _ => dumpNewLine_kept hdata) hread
  exact ⟨s', out, hread, .of_kept env hfit (readLinesOf_bounded hread) hk (hserving s' hk hdump')⟩

/-- **Every read is within bounds, and leaves the callback so.** -/
theorem callRead_served {s : Tapcp} (h : Serving env s) (hfit : ∀ c ∈ s.spi, c.Fits) :
    (s.readFn ≠ .listdevAscii → (callRead env s tftpMaxPayloadSize).isSome) ∧
      ∀ s' out, callRead env s tftpMaxPayloadSize = some (s', out) → Served env s s' out := by
  -- a callback that returns has one outcome
  have hone : ∀ s₁ out₁, callRead env s tftpMaxPayloadSize = some (s₁, out₁) →
      Served env s s₁ out₁ →
      (s.readFn ≠ .listdevAscii → (callRead env s tftpMaxPayloadSize).isSome) ∧
        ∀ s' out, callRead env s tftpMaxPayloadSize = some (s', out) → Served env s s' out := by
    intro s₁ out₁ hcall hserved
    rw [hcall]
    refine ⟨fun _ => rfl, ?_⟩
    rintro s' out ⟨⟩
    exact hserved
  cases h with
  | error hfn =>
    refine hone s ⟨-1, []⟩ (by rw [callRead, hfn]; rfl)
      (.of_kept env hfit ?_ ⟨rfl, rfl⟩ (.error hfn))
    exact ⟨Nat.zero_le _, Or.inl rfl⟩
  | help hfn hleft =>
    exact hone _ _ (by rw [callRead, hfn]) (readHelp_served env hfn hleft hfit)
  | temp hfn => exact hone _ _ (by rw [callRead, hfn]) (readTemp_served env hfn hfit)
  | listdev hfn =>
    refine ⟨fun hne => absurd hfn hne, ?_⟩
    intro s' out hcall
    rw [callRead, hfn] at hcall
    exact readListdevAscii_served env hfn hfit hcall
  | flash hfn hleft =>
    exact hone _ _ (by rw [callRead, hfn]) (readFlashBytesBinary_served env hfn hleft hfit)
  | memBinary hfn =>
    obtain ⟨hlen, hk⟩ := memBytesLoop_spec env tftpMaxPayloadSize s
    exact hone _ _ (by rw [callRead, hfn]; rfl)
      (.of_kept env hfit (bounded_of_length hlen) hk (.memBinary (hk.1.trans hfn)))
  | memAscii hfn hdump =>
    obtain ⟨s₁, out₁, hcall, hserved⟩ := dump_served env (memSource env) (memLineBytes_kept env 16)
      hdump (fun s' hk hd => .memAscii (hk.1.trans hfn) hd) hfit
    exact hone s₁ out₁ (by rw [callRead, hfn]; exact hcall) hserved
  | fpgaBinary hfn =>
    obtain ⟨hlen, hk⟩ := fpgaWordsLoop_spec env tftpMaxPayloadSize s
    exact hone _ _ (by rw [callRead, hfn]; rfl)
      (.of_kept env hfit (bounded_of_length hlen) hk (.fpgaBinary (hk.1.trans hfn)))
  | fpgaAscii hfn hdump =>
    obtain ⟨s₁, out₁, hcall, hserved⟩ := dump_served env (fpgaSource env) (fpgaLineWords_kept env 4)
      hdump (fun s' hk hd => .fpgaAscii (hk.1.trans hfn) hd) hfit
    exact hone s₁ out₁ (by rw [callRead, hfn]; exact hcall) hserved
  | flashcmd hfn hleft =>
    exact hone _ _ (by rw [callRead, hfn]) (readFlashcmdBinary_served env hfn hleft hfit)

/-- Any number of reads is within bounds. -/
theorem readBlocks_served : ∀ (k : Nat) {s : Tapcp}, Serving env s → (∀ c ∈ s.spi, c.Fits) →
    (s.readFn ≠ .listdevAscii → (readBlocks env k s).isSome) ∧
      ∀ s' outs, readBlocks env k s = some (s', outs) →
        (∀ out ∈ outs, out.Bounded) ∧ ∀ c ∈ s'.spi, c.Fits
  | 0, s, _, hfit => by
    refine ⟨fun _ => rfl, ?_⟩
    rintro s' outs ⟨⟩
    exact ⟨by simp, hfit⟩
  | k + 1, s, h, hfit => by
    obtain ⟨hsome, hserved⟩ := callRead_served env h hfit
    rw [readBlocks]
    cases hcall : callRead env s tftpMaxPayloadSize with
    | none =>
      rw [hcall] at hsome
      refine ⟨fun hne => absurd (hsome hne) (by decide), ?_⟩
      rintro s' outs ⟨⟩
    | some r =>
      obtain ⟨s₁, out₁⟩ := r
      have h₁ := hserved s₁ out₁ hcall
      obtain ⟨hsome', hall⟩ := readBlocks_served k h₁.serving h₁.fits
      rw [h₁.readFn] at hsome'
      constructor
      · intro hne
        rw [Option.isSome_map]
        exact hsome' hne
      · intro s' outs hblocks
        obtain ⟨⟨s₂, outs₂⟩, hrest, heq⟩ := Option.map_eq_some_iff.mp hblocks
        cases heq
        obtain ⟨hout, hspi⟩ := hall _ _ hrest
        refine ⟨?_, hspi⟩
        intro out hm
        rcases List.mem_cons.mp hm with rfl | hm
        · exact h₁.bounded
        · exact hout out hm

theorem Serving.readsBounded {s : Tapcp} (h : Serving env { s with spi := [] }) :
    ReadsBounded env s := fun k => readBlocks_served env k h (by simp)

/-! ## Lengths that are negative numbers -/

/-- A read that asks `send_spi` for too much. -/
theorem not_readsBounded {s s' : Tapcp} {out : ReadOut} {c : SpiCall}
    (hcall : callRead env { s with spi := [] } tftpMaxPayloadSize = some (s', out))
    (hc : c ∈ s'.spi) (hfit : ¬c.Fits) : ¬ReadsBounded env s := by
  intro h
  have hblocks : readBlocks env 1 { s with spi := [] } = some (s', [out]) := by
    rw [readBlocks, hcall]
    rfl
  exact hfit (((h 1).2 s' [out] hblocks).2 c hc)

/-- A negative count makes the flash reader ask for 2³¹ bytes or more. -/
theorem flash_not_bounded {s : Tapcp} (hfn : s.readFn = .flashBytesBinary) (hneg : s.nleft < 0)
    (hmin : -2 ^ 31 ≤ s.nleft) : ¬ReadsBounded env s := by
  have hof := toNat_ofInt32 s.nleft
  have hcall : ∀ t : Tapcp, t.readFn = .flashBytesBinary → callRead env t tftpMaxPayloadSize =
      some (readFlashBytesBinary env t tftpMaxPayloadSize) := by
    intro t ht
    rw [callRead, ht]
  refine not_readsBounded env (c := .tftpBuf (ofInt32 s.nleft)) (hcall _ hfn) ?_ ?_
  · show _ ∈ (readFlashBytesBinary env { s with spi := [] } tftpMaxPayloadSize).1.spi
    rw [readFlashBytesBinary, if_neg (show ¬s.nleft > (tftpMaxPayloadSize : Int) by omega),
      if_neg (show ¬s.nleft = 0 by omega)]
    exact List.mem_cons_self
  · show ¬(ofInt32 s.nleft).toNat ≤ tftpMaxPayloadSize
    unfold tftpMaxPayloadSize
    omega

/-- Transfers that have been asked for stay on record. -/
theorem flashcmdRefill_spi (s : Tapcp) : s.spi <+: (flashcmdRefill env s).spi := by
  unfold flashcmdRefill
  split
  · exact List.prefix_append _ _
  · exact List.prefix_refl _

/-- Transfers stay on record, and the callback stays installed. -/
theorem flashcmdLoop_spi (bytes : Nat) (s : Tapcp) :
    s.spi <+: (flashcmdLoop env s bytes).1.spi ∧
      (flashcmdLoop env s bytes).1.readFn = s.readFn := by
  induction bytes using Nat.strong_induction_on generalizing s with
  | _ bytes ih =>
    rw [flashcmdLoop]
    split
    · next hrun =>
      have hupos : 0 < s.u32.toNat :=
        Nat.pos_of_ne_zero fun he => hrun.1 (UInt32.toNat_inj.mp he)
      dsimp only
      generalize hn : (if bytes < s.u32.toNat then bytes else s.u32.toNat) = n
      have hpos : bytes - n < bytes := by
        split at hn <;> omega
      let sent : Tapcp := { s with
        ptr := s.ptr + UInt32.ofNat n
        u32 := s.u32 - UInt32.ofNat n
        nleft := wrap32 (s.nleft - n) }
      obtain ⟨hspi, hfn⟩ := ih _ hpos (flashcmdRefill env sent)
      exact ⟨(flashcmdRefill_spi env sent).trans hspi, hfn.trans (flashcmdRefill_readFn env sent)⟩
    · exact ⟨List.prefix_refl _, rfl⟩

/-- A negative count makes the refill of `spi_buf` ask for 2³¹ bytes or more. -/
theorem readFlashcmdBinary_overlong {s : Tapcp} {len : UInt32} (hu : s.u32 ≠ 0)
    (hule : s.u32.toNat ≤ tftpMaxPayloadSize) (hleft : s.nleft = toInt32 (len + s.u32))
    (hlen : 2 ^ 31 ≤ len.toNat) :
    .spiBuf len ∈ (readFlashcmdBinary env s tftpMaxPayloadSize).1.spi := by
  have hneg := (toInt32_neg_iff len).mpr hlen
  -- the command is sent first, and what is left is the length
  have hloop : .spiBuf len ∈ (flashcmdLoop env s tftpMaxPayloadSize).1.spi := by
    rw [flashcmdLoop, dif_pos ⟨hu, by decide⟩]
    dsimp only
    rw [if_neg (by omega)]
    refine (flashcmdLoop_spi env _ _).1.subset ?_
    have hzero : s.u32 - UInt32.ofNat s.u32.toNat = 0 := by
      rw [UInt32.ofNat_toNat, UInt32.sub_self]
    have hrest : wrap32 (s.nleft - s.u32.toNat) = toInt32 len := by
      rw [hleft, wrap32_toInt32_sub, UInt32.ofNat_toNat, UInt32.add_sub_cancel]
    rw [flashcmdRefill, if_pos ⟨hzero, by dsimp only; omega⟩]
    show SpiCall.spiBuf len ∈ s.spi ++ [.spiBuf (spiRefill (wrap32 (s.nleft - s.u32.toNat)))]
    rw [hrest, spiRefill, if_pos (by omega), ofInt32_toInt32]
    exact List.mem_append_right _ List.mem_cons_self
  rw [readFlashcmdBinary]
  dsimp only
  split
  · exact List.mem_append_left _ hloop
  · exact hloop

theorem flashcmd_not_bounded {s : Tapcp} {len : UInt32} (hfn : s.readFn = .flashcmdBinary)
    (hu : s.u32 ≠ 0) (hule : s.u32.toNat ≤ tftpMaxPayloadSize)
    (hleft : s.nleft = toInt32 (len + s.u32)) (hlen : 2 ^ 31 ≤ len.toNat) :
    ¬ReadsBounded env s := by
  have hcall : callRead env { s with spi := [] } tftpMaxPayloadSize =
      some (readFlashcmdBinary env { s with spi := [] } tftpMaxPayloadSize) := by
    rw [callRead, hfn]
  refine not_readsBounded env (c := .spiBuf len) hcall
    (readFlashcmdBinary_overlong env (s := { s with spi := [] }) hu hule hleft hlen) ?_
  show ¬len.toNat ≤ spiBufLen
  unfold spiBufLen tftpMaxFilenameLen
  omega

/-! ## Opening -/

/-- A dump of so many items is ready to be sent. -/
theorem dumping_zero {Src : Tapcp → List (List UInt8) → Prop} {s : Tapcp} (hlidx : s.lidx = 0)
    (hsrc : 0 ≤ s.nleft → ∃ lines, Src s lines) : Dumping Src s := by
  rcases Int.lt_or_le s.nleft 0 with hneg | hpos
  · exact Or.inl hneg
  · obtain ⟨lines, hlines⟩ := hsrc hpos
    exact Or.inr ⟨lines, 0, linesAt_zero hlidx hlines⟩

theorem openWords_serving {s : Tapcp} (hw : s.write = false) (hmul : s.nleft % 4 = 0) :
    Serving env { openWords s with spi := [] } := by
  rw [openWords, hw]
  cases s.binary with
  | true => exact .fpgaBinary rfl
  | false =>
    refine .fpgaAscii rfl (dumping_zero rfl fun hpos => ⟨_, (s.nleft / 4).toNat, ?_, rfl⟩)
    show s.nleft = 4 * ((s.nleft / 4).toNat : Int)
    have : 0 ≤ s.nleft := hpos
    omega

theorem openMem_serving {s s' : Tapcp} {fname : List UInt8} (hw : s.write = false)
    (hopen : openMem s fname = (s', true)) : Serving env { s' with spi := [] } := by
  by_cases hfpga : (ascii "/fpga.").isPrefixOf fname = true
  · rcases hreq : memRequest s.write fname with ⟨off, len⟩
    obtain ⟨rfl, -, hlen, -⟩ := openMem_ok hfpga hreq hopen
    refine openWords_serving env hw ?_
    show toInt32 (if s.write then fpgaNbytes - off else len) % 4 = 0
    rw [hw, if_neg (show ¬false = true by decide)]
    unfold toInt32
    split <;> omega
  · rw [openMem, if_neg hfpga] at hopen
    split at hopen
    · unfold openMemAt at hopen
      split at hopen
      · cases hopen
      · dsimp only at hopen
        split at hopen
        · cases hopen
        · rw [hw, if_pos (by decide)] at hopen
          split at hopen
          · cases hopen
            exact .memBinary rfl
          · cases hopen
            refine .memAscii rfl
              (dumping_zero rfl fun hpos => ⟨_, _, (Int.toNat_of_nonneg hpos).symm, rfl⟩)
    · cases hopen

theorem openDev_serving {s s' : Tapcp} {fname : List UInt8} (hw : s.write = false)
    (hopen : openDev env s fname = some (s', true)) : Serving env { s' with spi := [] } := by
  obtain ⟨ptr, info, hdev⟩ := openDev_found env hopen
  rcases hreq : devRequest s.write fname info.length with ⟨off, n⟩
  obtain ⟨rfl, -⟩ := openDev_ok env hdev hreq hopen
  refine openWords_serving env hw ?_
  show toInt32 (n <<< 2) % 4 = 0
  rw [toInt32_shiftLeft_two]
  split <;> omega

/-- The number of bytes a file name `/flash.…` asks for. -/
def flashLength (fname : List UInt8) : UInt32 :=
  (cmdFields false (fname.drop (ascii "/flash.").length) 0).2 <<< 2

theorem openFlash_ok {s s' : Tapcp} {fname : List UInt8} (hw : s.write = false)
    (hopen : openFlash s fname = (s', true)) :
    s.binary = true ∧ s'.readFn = .flashBytesBinary ∧ s'.nleft = toInt32 (flashLength fname) := by
  unfold openFlash at hopen
  rw [hw] at hopen
  split at hopen
  · cases hopen
  · next hbin =>
    dsimp only at hopen
    split at hopen
    · cases hopen
    · rw [if_neg (by simp), if_pos (by decide)] at hopen
      cases hopen
      exact ⟨by simpa using hbin, rfl, rfl⟩

/-- A command in the file name means that its length field has been read. -/
theorem flashcmdFields_eq (fname : List UInt8) (len : UInt32) :
    (flashcmdFields fname len).2 = (flashcmdFields fname 0).2 ∧
      ((cstr (flashcmdFields fname 0).2).length ≠ 0 →
        (flashcmdFields fname len).1 = (flashcmdFields fname 0).1) := by
  unfold flashcmdFields
  generalize (if (ascii "/flashcmd.").isPrefixOf fname = true then
    fname.drop (ascii "/flashcmd.").length else fname) = p
  dsimp only
  by_cases hp : deref p = 0
  · rw [hexToU32, hexToU32, if_neg (not_not.mpr hp), if_neg (not_not.mpr hp)]
    refine ⟨rfl, fun hne => absurd ?_ hne⟩
    rw [if_neg (by rw [hp]; decide)]
    cases p with
    | nil => rfl
    | cons c p =>
      rw [deref_cons] at hp
      rw [hp]
      rfl
  · rw [hexToU32, hexToU32, if_pos hp, if_pos hp]
    exact ⟨rfl, fun _ => rfl⟩

/-- The number of bytes in the command of a file name `/flashcmd.…`. -/
def flashcmdBytes (fname : List UInt8) : Nat := (cstr (flashcmdFields fname 0).2).length / 2

/-- The bytes of the command. -/
def flashcmdCmd (fname : List UInt8) : List UInt8 :=
  hexToU8 (flashcmdBytes fname) (flashcmdFields fname 0).2

/-- The command is in `spi_buf` and has been sent. -/
theorem openFlashcmd_eq {s s' : Tapcp} {fname : List UInt8} (hw : s.write = false)
    (hopen : openFlashcmd env s fname = some (s', true)) :
    s.binary = true ∧ flashcmdBytes fname ≤ spiBufLen ∧
      s' = { sendSpiBuf env { s with
          nleft := toInt32 ((flashcmdFields fname (ofInt32 s.nleft)).1 +
            UInt32.ofNat (flashcmdBytes fname))
          u32 := UInt32.ofNat (flashcmdBytes fname)
          spiBuf := flashcmdCmd fname ++ s.spiBuf.drop (flashcmdBytes fname) }
        (UInt32.ofNat (flashcmdBytes fname)) with
        ptr := env.spiBufAddr, readFn := .flashcmdBinary } := by
  obtain ⟨hcmd, -⟩ := flashcmdFields_eq fname (ofInt32 s.nleft)
  rw [openFlashcmd, if_neg (by rw [hw]; decide)] at hopen
  dsimp only at hopen
  rw [hcmd] at hopen
  split at hopen
  · cases hopen
  · next hfit =>
    split at hopen
    · next hbin =>
      cases hopen
      exact ⟨hbin, Nat.not_lt.mp hfit, rfl⟩
    · cases hopen

theorem openFlashcmd_ok {s s' : Tapcp} {fname : List UInt8} (hw : s.write = false)
    (hopen : openFlashcmd env s fname = some (s', true)) :
    s.binary = true ∧ s'.readFn = .flashcmdBinary ∧ flashcmdBytes fname ≤ spiBufLen ∧
      s'.u32 = UInt32.ofNat (flashcmdBytes fname) ∧
      (flashcmdBytes fname ≠ 0 →
        s'.nleft = toInt32 ((flashcmdFields fname 0).1 + UInt32.ofNat (flashcmdBytes fname))) := by
  obtain ⟨-, hlen⟩ := flashcmdFields_eq fname (ofInt32 s.nleft)
  obtain ⟨hbin, hfit, rfl⟩ := openFlashcmd_eq env hw hopen
  refine ⟨hbin, rfl, hfit, rfl, fun hne => ?_⟩
  rw [← hlen (by unfold flashcmdBytes at hne; omega)]
  rfl

/--
The file names whose length field is a negative count: `/flash` with 2³¹ bytes or more, and
`/flashcmd` with a command and 2³¹ bytes or more.  Both are for octet mode only.
-/
def Overlong (binary : Bool) (fname : List UInt8) : Prop :=
  binary = true ∧
  (((ascii "/flash.").isPrefixOf fname = true ∧ 2 ^ 31 ≤ (flashLength fname).toNat) ∨
   ((ascii "/flashcmd.").isPrefixOf fname = true ∧ flashcmdBytes fname ≠ 0 ∧
      2 ^ 31 ≤ (flashcmdFields fname 0).1.toNat))

/-- Two strings that begin a third one begin alike. -/
theorem isPrefixOf_or {a b c : List UInt8} (ha : a.isPrefixOf c = true)
    (hb : b.isPrefixOf c = true) : a.isPrefixOf b = true ∨ b.isPrefixOf a = true := by
  rw [List.isPrefixOf_iff_prefix] at *
  rw [List.isPrefixOf_iff_prefix]
  exact List.prefix_or_prefix_of_prefix ha hb

theorem not_overlong {binary : Bool} {fname : List UInt8}
    (hflash : ¬(ascii "/flash.").isPrefixOf fname = true)
    (hcmd : ¬(ascii "/flashcmd.").isPrefixOf fname = true) : ¬Overlong binary fname := by
  rintro ⟨-, ⟨h, -⟩ | ⟨h, -⟩⟩
  · exact hflash h
  · exact hcmd h

/-- A name that begins with a string that neither of the two begin with. -/
theorem not_overlong_of_begins {binary : Bool} {fname a : List UInt8}
    (ha : a.isPrefixOf fname = true)
    (hflash : ¬((ascii "/flash.").isPrefixOf a = true ∨ a.isPrefixOf (ascii "/flash.") = true))
    (hcmd : ¬((ascii "/flashcmd.").isPrefixOf a = true ∨
      a.isPrefixOf (ascii "/flashcmd.") = true)) : ¬Overlong binary fname :=
  not_overlong (fun h => hflash (isPrefixOf_or h ha)) (fun h => hcmd (isPrefixOf_or h ha))

theorem openFlash_bounded_iff {s s' : Tapcp} {fname : List UInt8} (hw : s.write = false)
    (hname : (ascii "/flash.").isPrefixOf fname = true)
    (hopen : openFlash s fname = (s', true)) :
    ReadsBounded env s' ↔ ¬Overlong s.binary fname := by
  obtain ⟨hbin, hfn, hleft⟩ := openFlash_ok hw hopen
  rcases Nat.lt_or_ge (flashLength fname).toNat (2 ^ 31) with hlt | hge
  · refine iff_of_true (Serving.readsBounded env (.flash hfn ?_)) ?_
    · show 0 ≤ s'.nleft
      rw [hleft, toInt32_of_lt hlt]
      omega
    · rintro ⟨-, ⟨-, hbig⟩ | ⟨hcmd, -⟩⟩
      · omega
      · exact absurd (isPrefixOf_or hname hcmd) (by decide +kernel)
  · have hneg := (toInt32_neg_iff (flashLength fname)).mpr hge
    have hmin : -2 ^ 31 ≤ toInt32 (flashLength fname) := by
      rw [toInt32_of_le hge]
      omega
    rw [← hleft] at hneg hmin
    exact iff_of_false (flash_not_bounded env hfn hneg hmin)
      (not_not.mpr ⟨hbin, Or.inl ⟨hname, hge⟩⟩)

theorem openFlashcmd_bounded_iff {s s' : Tapcp} {fname : List UInt8} (hw : s.write = false)
    (hname : (ascii "/flashcmd.").isPrefixOf fname = true)
    (hopen : openFlashcmd env s fname = some (s', true)) :
    ReadsBounded env s' ↔ ¬Overlong s.binary fname := by
  obtain ⟨hbin, hfn, hfit, hu, hleft⟩ := openFlashcmd_ok env hw hopen
  have hnot : ¬(ascii "/flash.").isPrefixOf fname = true := fun h =>
    absurd (isPrefixOf_or hname h) (by decide +kernel)
  have htoNat : (UInt32.ofNat (flashcmdBytes fname)).toNat = flashcmdBytes fname :=
    UInt32.toNat_ofNat_of_lt' (by
      unfold spiBufLen tftpMaxFilenameLen at hfit
      unfold UInt32.size
      omega)
  by_cases hzero : flashcmdBytes fname = 0
  · refine iff_of_true (Serving.readsBounded env (.flashcmd hfn (Or.inl ?_))) ?_
    · show s'.u32 = 0
      rw [hu, hzero]
      rfl
    · rintro ⟨-, ⟨h, -⟩ | ⟨-, h, -⟩⟩
      · exact hnot h
      · exact h hzero
  · have hleft' := hleft hzero
    rcases Nat.lt_or_ge (flashcmdFields fname 0).1.toNat (2 ^ 31) with hlt | hge
    · refine iff_of_true (Serving.readsBounded env (.flashcmd hfn (Or.inr ⟨_, hlt, ?_⟩))) ?_
      · show s'.nleft = toInt32 (s'.u32 + UInt32.ofNat (flashcmdFields fname 0).1.toNat)
        rw [UInt32.ofNat_toNat, hu, hleft', UInt32.add_comm]
      · rintro ⟨-, ⟨h, -⟩ | ⟨-, -, h⟩⟩
        · exact hnot h
        · omega
    · refine iff_of_false (flashcmd_not_bounded env hfn ?_ ?_ (by rw [hleft', hu]) hge)
        (not_not.mpr ⟨hbin, Or.inr ⟨hname, hzero, hge⟩⟩)
      · intro he
        have := congrArg UInt32.toNat he
        rw [hu, htoNat] at this
        exact hzero this
      · rw [hu, htoNat]
        exact Nat.le_trans hfit (by decide)

/--
**The reads of a file are within bounds if and only if its name does not ask for a negative number
of bytes of flash.**
-/
theorem tftpOpen_reads_bounded_iff {s s' : Tapcp} {fname mode : List UInt8}
    (hopen : tftpOpen env s fname mode false = some (s', true)) :
    ReadsBounded env s' ↔ ¬Overlong (decide (deref mode = 0x6f)) fname := by
  unfold tftpOpen at hopen
  dsimp only at hopen
  split at hopen
  · next h =>
    cases hopen
    refine iff_of_true (Serving.readsBounded env (.help rfl (Int.natCast_nonneg _))) ?_
    rw [h.1]
    exact not_overlong (by decide +kernel) (by decide +kernel)
  split at hopen
  · next h =>
    rw [Option.some.injEq] at hopen
    refine iff_of_true (Serving.readsBounded env ?_) ?_
    · unfold openListdev at hopen
      split at hopen
      · cases hopen
        exact .memBinary rfl
      · cases hopen
        exact .listdev rfl
    · rw [h.1]
      exact not_overlong (by decide +kernel) (by decide +kernel)
  split at hopen
  · next h =>
    cases hopen
    refine iff_of_true (Serving.readsBounded env (.temp rfl)) ?_
    rw [h.1]
    exact not_overlong (by decide +kernel) (by decide +kernel)
  split at hopen
  · next h =>
    rw [Option.some.injEq] at hopen
    exact iff_of_true (Serving.readsBounded env (openMem_serving env rfl hopen))
      (not_overlong_of_begins h (by decide +kernel) (by decide +kernel))
  split at hopen
  · next h =>
    rw [Option.some.injEq] at hopen
    exact iff_of_true (Serving.readsBounded env (openMem_serving env rfl hopen))
      (not_overlong_of_begins h.1 (by decide +kernel) (by decide +kernel))
  split at hopen
  · next h => exact absurd h.2 (by decide)
  split at hopen
  · next h =>
    rw [Option.some.injEq] at hopen
    exact openFlash_bounded_iff env rfl h hopen
  split at hopen
  · next h => exact openFlashcmd_bounded_iff env rfl h hopen
  · next hflash hcmd =>
    exact iff_of_true (Serving.readsBounded env (openDev_serving env rfl hopen))
      (not_overlong hflash hcmd)

/-- An octet read of 16 words of flash. -/
theorem tftpOpen_reads_bounded_flash : ∃ s',
    tftpOpen Env.zero Tapcp.zero (ascii "/flash.100.10") (ascii "octet") false = some (s', true) ∧
    (ReadsBounded Env.zero s' ↔
      ¬Overlong (decide (deref (ascii "octet") = 0x6f)) (ascii "/flash.100.10")) := by
  have hok : (tftpOpen Env.zero Tapcp.zero (ascii "/flash.100.10") (ascii "octet") false).map
      Prod.snd = some true := by
    decide +kernel
  obtain ⟨⟨s', b⟩, hopen, hb⟩ := Option.map_eq_some_iff.mp hok
  cases hb
  exact ⟨s', hopen, tftpOpen_reads_bounded_iff Env.zero hopen⟩

/-- An octet read of 2²⁹ words of flash: the first read asks for 2³¹ bytes. -/
theorem tftpOpen_flash_not_bounded : ∃ s',
    tftpOpen Env.zero Tapcp.zero (ascii "/flash.0.20000000") (ascii "octet") false =
      some (s', true) ∧ ¬ReadsBounded Env.zero s' := by
  have hok : (tftpOpen Env.zero Tapcp.zero (ascii "/flash.0.20000000") (ascii "octet") false).map
      (fun r => (r.2, r.1.readFn, r.1.nleft)) =
      some (true, .flashBytesBinary, -2147483648) := by
    decide +kernel
  obtain ⟨⟨s', b⟩, hopen, hb⟩ := Option.map_eq_some_iff.mp hok
  simp only [Prod.mk.injEq] at hb
  obtain ⟨rfl, hfn, hleft⟩ := hb
  exact ⟨s', hopen, flash_not_bounded Env.zero hfn (by omega) (by omega)⟩

end MlibDevel.Jam
