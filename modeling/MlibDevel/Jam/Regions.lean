import MlibDevel.Jam.WordAccess

/-!
# Regions: what a client can reach through a device or through `/fpga`

`casper_tapcp_open_dev` and `casper_tapcp_open_mem` take an offset and a length from the file name
and check them with 32-bit arithmetic.  An access outside the device, or outside the FPGA, is one
that the check lets through because a sum or a difference wraps around, or because a byte count with
its top bit set is a negative `nleft`, which does not limit a writer.

The two theorems give the condition on the numbers under which no access leaves the region:
`openDev_within_iff` for devices and `openMem_within_iff` for `/fpga`.
-/

namespace MlibDevel.Jam

open Lib

variable (env : Env)

/-! ## Devices -/

/-- The addresses of the region of a base address and a length, modulo 2³². -/
def InRegion (base length addr : UInt32) : Prop := (addr - base).toNat < length.toNat

theorem toNat_shiftLeft_two (u : UInt32) : (u <<< 2).toNat = 4 * u.toNat % 2 ^ 32 := by
  rw [UInt32.toNat_shiftLeft]
  show u.toNat <<< (2 % 32) % 2 ^ 32 = _
  rw [Nat.shiftLeft_eq, Nat.mul_comm]

theorem toNat_shiftRight_two (u : UInt32) : (u >>> 2).toNat = u.toNat / 4 := by
  rw [UInt32.toNat_shiftRight]
  show u.toNat >>> (2 % 32) = _
  rw [Nat.shiftRight_eq_div_pow]

/-- The distance of a word from the start of its device. -/
theorem toNat_word_sub (base off : UInt32) (i : Nat) :
    (base + (off <<< 2) + 4 * UInt32.ofNat i - base).toNat = (4 * off.toNat + 4 * i) % 2 ^ 32 := by
  have h : ∀ x y : UInt32, base + x + y - base = x + y := by
    intro x y
    rw [UInt32.add_assoc, UInt32.add_comm, UInt32.add_sub_cancel]
  have h4 : (4 * UInt32.ofNat i : UInt32).toNat = 4 * i % 2 ^ 32 := by
    rw [UInt32.toNat_mul, UInt32.toNat_ofNat']
    exact Nat.mul_mod_mod 4 i (2 ^ 32)
  rw [h, UInt32.toNat_add, h4, toNat_shiftLeft_two]
  exact (Nat.add_mod _ _ _).symm

/-- The count of `n` words, as a byte count in an `int`. -/
theorem toInt32_shiftLeft_two (n : UInt32) :
    toInt32 (n <<< 2) =
      (if n.toNat % 2 ^ 30 < 2 ^ 29 then 4 * (n.toNat % 2 ^ 30 : Nat)
      else 4 * (n.toNat % 2 ^ 30 : Nat) - 2 ^ 32 : Int) := by
  have h4 : 4 * n.toNat % 2 ^ 32 = 4 * (n.toNat % 2 ^ 30) := Nat.mul_mod_mul_left 4 n.toNat (2 ^ 30)
  rw [toInt32, toNat_shiftLeft_two, h4]
  split <;> split <;> omega

/--
`n` words from word `off` on stay inside a device of `length` bytes.  The shifts drop the two top
bits of both numbers, so only their last 30 bits count.  A read of 2²⁹ words or more reads nothing,
and the largest lengths make every word address part of the region.
-/
def WordsInside (write : Bool) (length off n : UInt32) : Prop :=
  (off.toNat % 2 ^ 30 + n.toNat % 2 ^ 30 ≤ length.toNat / 4 ∧ n.toNat % 2 ^ 30 < 2 ^ 29) ∨
  (write = false ∧ 2 ^ 29 ≤ n.toNat % 2 ^ 30) ∨ 2 ^ 32 - 4 < length.toNat

instance (write : Bool) (length off n : UInt32) : Decidable (WordsInside write length off n) :=
  inferInstanceAs (Decidable (_ ∨ _))

/-- What the check accepts stays inside if and only if its numbers do. -/
theorem allowed_inside_iff {write : Bool} {length off n : UInt32}
    (hacc : (off + n).toNat ≤ length.toNat / 4) :
    (∀ i, Allowed write (toInt32 (n <<< 2)) i → (4 * off.toNat + 4 * i) % 2 ^ 32 < length.toNat) ↔
      WordsInside write length off n := by
  have hlen := length.toNat_lt
  rw [UInt32.toNat_add] at hacc
  rw [toInt32_shiftLeft_two]
  constructor
  · intro h
    by_contra hout
    have hnot := not_or.mp hout
    have hnot' := not_or.mp hnot.2
    -- the last word below 2³² is outside, so it must not be allowed
    have hlast := h (2 ^ 30 - 1 - off.toNat % 2 ^ 30)
    have hfar : (4 * off.toNat + 4 * (2 ^ 30 - 1 - off.toNat % 2 ^ 30)) % 2 ^ 32 = 2 ^ 32 - 4 := by
      omega
    rw [hfar] at hlast
    refine hnot'.2 (hlast ?_)
    by_cases hsmall : n.toNat % 2 ^ 30 < 2 ^ 29
    · rw [if_pos hsmall]
      refine Or.inl ?_
      have hover : ¬(off.toNat % 2 ^ 30 + n.toNat % 2 ^ 30 ≤ length.toNat / 4) :=
        fun hle => hnot.1 ⟨hle, hsmall⟩
      have hmod : (off.toNat % 2 ^ 30 + n.toNat % 2 ^ 30) % 2 ^ 30 =
          (off.toNat + n.toNat) % 2 ^ 32 := by
        rw [← Nat.add_mod,
          ← Nat.mod_mod_of_dvd (off.toNat + n.toNat) (show 2 ^ 30 ∣ 2 ^ 32 by decide)]
        exact Nat.mod_eq_of_lt (by omega)
      omega
    · rw [if_neg hsmall]
      refine Or.inr ⟨?_, by omega⟩
      cases write with
      | true => rfl
      | false => exact absurd ⟨rfl, Nat.not_lt.mp hsmall⟩ hnot'.1
  · rintro (⟨hle, hsmall⟩ | ⟨hread, hbig⟩ | hall) i hi
    · rw [if_pos hsmall] at hi
      rcases hi with hi | ⟨-, hi⟩ <;> omega
    · rw [if_neg (by omega)] at hi
      rcases hi with hi | ⟨hw, -⟩
      · omega
      · rw [hread] at hw
        cases hw
    · omega

/--
The first word and the number of words a file name asks for: the rest of the device when it gives no
number, or zero, and on writes.
-/
def devRequest (write : Bool) (fname : List UInt8) (length : UInt32) : UInt32 × UInt32 :=
  let (off, len) := cmdFields write (devFields fname).2 0
  (off, if len = 0 then (length >>> 2) - off else len)

/-- The address of a device that is found. -/
theorem casperFindDev_addr {name : List UInt8} {ptr : UInt32} {info : CasperDevInfo}
    (h : casperFindDev env name = some (ptr, some info)) : ptr = info.offset + fpgaBaseaddr := by
  unfold casperFindDev at h
  split at h
  · split at h
    · simp at h
    · split at h
      · simp at h
      · simp at h
      · split at h
        · simp at h
        · next info' hinfo =>
          rw [Option.some.injEq, Prod.mk.injEq, Option.some.injEq] at h
          rw [← h.1, h.2]
  · simp at h

/-- A device that is opened has been found. -/
theorem openDev_found {s s' : Tapcp} {fname : List UInt8}
    (hopen : openDev env s fname = some (s', true)) :
    ∃ ptr info, casperFindDev env (devFields fname).1 = some (ptr, some info) := by
  unfold openDev at hopen
  dsimp only at hopen
  split at hopen
  · cases hopen
  · cases hopen
  · next ptr info hdev => exact ⟨ptr, info, hdev⟩

/-- What `casper_tapcp_open_dev` leaves when it succeeds. -/
theorem openDev_ok {s s' : Tapcp} {fname : List UInt8} {ptr off n : UInt32} {info : CasperDevInfo}
    (hdev : casperFindDev env (devFields fname).1 = some (ptr, some info))
    (hreq : devRequest s.write fname info.length = (off, n))
    (hopen : openDev env s fname = some (s', true)) :
    s' = openWords { s with ptr := ptr + (off <<< 2), nleft := toInt32 (n <<< 2) } ∧
      (off + n).toNat ≤ info.length.toNat / 4 := by
  rw [devRequest] at hreq
  dsimp only at hreq
  rw [Prod.mk.injEq] at hreq
  obtain ⟨hoff, hn⟩ := hreq
  rw [openDev] at hopen
  dsimp only at hopen
  rw [hdev] at hopen
  dsimp only at hopen
  rw [hoff] at hn hopen
  rw [hn] at hopen
  split at hopen
  · simp at hopen
  · split at hopen
    · simp at hopen
    · split at hopen
      · simp at hopen
      · split at hopen
        · simp at hopen
        · next hcheck =>
          rw [Option.some.injEq, Prod.mk.injEq] at hopen
          refine ⟨hopen.1.symm, ?_⟩
          rw [← toNat_shiftRight_two]
          cases hw : s.write with
          | false =>
            rw [hw] at hcheck
            simpa [UInt32.lt_iff_toNat_lt, UInt32.le_iff_toNat_le] using hcheck
          | true =>
            -- a write has no length of its own, so the sum is the end of the device
            rw [hw] at hn
            rw [← hn, if_pos (show (cmdFields true (devFields fname).2 0).2 = 0 from rfl),
              UInt32.add_comm, UInt32.sub_add_cancel]

/--
**A device that can be opened is the only thing its file reaches if and only if the first word and
the number of words that the file name asks for stay inside it.**
-/
theorem openDev_within_iff {s s' : Tapcp} {fname mode : List UInt8} {write : Bool}
    {ptr : UInt32} {info : CasperDevInfo}
    (hdev : casperFindDev env (devFields fname).1 = some (ptr, some info))
    (hopen : openDev env (tftpBegin s mode write) fname = some (s', true)) :
    AccessesWithin env s' (InRegion (fpgaBaseaddr + info.offset) info.length) ↔
      WordsInside write info.length (devRequest write fname info.length).1
        (devRequest write fname info.length).2 := by
  rcases hreq : devRequest write fname info.length with ⟨off, n⟩
  obtain ⟨rfl, hacc⟩ := openDev_ok env hdev hreq hopen
  have hmul : toInt32 (n <<< 2) % 4 = 0 := by
    rw [toInt32_shiftLeft_two]
    split <;> omega
  rw [accessesWithin_iff env rfl rfl hmul, ← allowed_inside_iff hacc]
  have hbase : fpgaBaseaddr + info.offset = ptr := by
    rw [casperFindDev_addr env hdev, UInt32.add_comm]
  rw [hbase]
  simp only [InRegion, toNat_word_sub]
  rfl

/-- An access outside in one run. -/
theorem not_accessesWithin {s : Tapcp} {inside : UInt32 → Prop} {calls : List Call}
    {bus : List Access} {a : Access}
    (hrun : (runCalls env calls { s with bus := [] }).map Tapcp.bus = some bus) (ha : a ∈ bus)
    (hout : ¬inside a.addr) : ¬AccessesWithin env s inside := by
  intro h
  obtain ⟨s', hs', rfl⟩ := Option.map_eq_some_iff.mp hrun
  exact hout (h calls s' hs' a ha)

/-- A design with one device, `eq`, of four words at offset `0x100`. -/
def eqEnv : Env :=
  { Env.zero with
    coreInfo := [9, 2, 0x65, 0x71, 0, 0, 1, 0, 0, 0, 0, 16, 1, 0, 0], coreInfoSize := 15 }

/-- The record of `eq`. -/
def eqInfo : CasperDevInfo := { offset := 0x100, length := 16, typecode := 1 }

/-- The last two words of `eq`. -/
theorem openDev_within_eq : ∃ s',
    openDev eqEnv (tftpBegin Tapcp.zero (ascii "octet") false) (ascii "/dev/eq.2.2") =
      some (s', true) ∧
    (AccessesWithin eqEnv s' (InRegion (fpgaBaseaddr + eqInfo.offset) eqInfo.length) ↔
      WordsInside false eqInfo.length (devRequest false (ascii "/dev/eq.2.2") eqInfo.length).1
        (devRequest false (ascii "/dev/eq.2.2") eqInfo.length).2) := by
  have hok : (openDev eqEnv (tftpBegin Tapcp.zero (ascii "octet") false)
      (ascii "/dev/eq.2.2")).map Prod.snd = some true := by
    decide +kernel
  obtain ⟨⟨s', b⟩, hopen, hb⟩ := Option.map_eq_some_iff.mp hok
  cases hb
  have hdev : casperFindDev eqEnv (devFields (ascii "/dev/eq.2.2")).1 =
      some (0x44A00100, some eqInfo) := by
    decide +kernel
  exact ⟨s', hopen, openDev_within_iff eqEnv hdev hopen⟩

/-- Word `FFFFFFFF` of `eq` is the word before it: the sum of offset and length is 1. -/
theorem openDev_reads_before_eq : ∃ s',
    casperFindDev eqEnv (devFields (ascii "eq.FFFFFFFF.2")).1 = some (0x44A00100, some eqInfo) ∧
    openDev eqEnv (tftpBegin Tapcp.zero (ascii "octet") false) (ascii "eq.FFFFFFFF.2") =
      some (s', true) ∧
    ¬AccessesWithin eqEnv s' (InRegion (fpgaBaseaddr + eqInfo.offset) eqInfo.length) := by
  have hrun : (openDev eqEnv (tftpBegin Tapcp.zero (ascii "octet") false)
      (ascii "eq.FFFFFFFF.2")).map (fun r =>
        (r.2, (runCalls eqEnv [.read 8] { r.1 with bus := [] }).map Tapcp.bus)) =
      some (true, some [.read 0x44A000FC, .read 0x44A00100]) := by
    decide +kernel
  obtain ⟨⟨s', b⟩, hopen, hb⟩ := Option.map_eq_some_iff.mp hrun
  rw [Prod.mk.injEq] at hb
  obtain ⟨rfl, hbus⟩ := hb
  refine ⟨s', by decide +kernel, hopen, not_accessesWithin eqEnv hbus List.mem_cons_self ?_⟩
  show ¬(0x44A000FC - (fpgaBaseaddr + eqInfo.offset)).toNat < eqInfo.length.toNat
  decide +kernel

/-! ## `/fpga` -/

/-- The FPGA's addresses. -/
def InFpga (addr : UInt32) : Prop := fpgaBaseaddr ≤ addr ∧ addr ≤ fpgaHighaddr

/-- The first byte and the number of bytes a file name `/fpga.…` asks for, aligned to words. -/
def memRequest (write : Bool) (fname : List UInt8) : UInt32 × UInt32 :=
  let (off, len) := cmdFields write (fname.drop (ascii "/fpga.").length) 1
  (off &&& ~~~3, (len + 3) &&& ~~~3)

/--
A request stays inside the FPGA: on writes the offset is not behind it; on reads the length fits, or
it is a negative `int` and nothing is read.
-/
def FpgaInside (write : Bool) (off len : UInt32) : Prop :=
  if write then off.toNat ≤ fpgaNbytes.toNat
  else off.toNat + len.toNat ≤ fpgaNbytes.toNat ∨ 2 ^ 31 ≤ len.toNat

theorem toNat_and_not_three (u : UInt32) : (u &&& ~~~3 : UInt32).toNat = u.toNat / 4 * 4 := by
  have hmask : ∀ i < 32, Nat.testBit 4294967292 i = decide (2 ≤ i) := by decide
  rw [UInt32.toNat_and]
  show u.toNat &&& 4294967292 = u.toNat / 2 ^ 2 * 2 ^ 2
  apply Nat.eq_of_testBit_eq
  intro i
  rw [Nat.testBit_and, Nat.testBit_mul_two_pow, Nat.testBit_div_two_pow]
  rcases Nat.lt_or_ge i 32 with hi | hi
  · rw [hmask i hi]
    by_cases h2 : 2 ≤ i
    · simp [h2]
    · simp [h2]
  · have hhigh : u.toNat.testBit i = false :=
      Nat.testBit_lt_two_pow (Nat.lt_of_lt_of_le u.toNat_lt (Nat.pow_le_pow_right (by decide) hi))
    rw [hhigh, Nat.sub_add_cancel (by omega), hhigh, Bool.and_false, Bool.false_and]

/-- A word is in the FPGA if its distance from the base address is. -/
theorem inFpga_word_iff (off : UInt32) (i : Nat) :
    InFpga (fpgaBaseaddr + off + 4 * UInt32.ofNat i) ↔
      (off.toNat + 4 * i) % 2 ^ 32 < fpgaNbytes.toNat := by
  have h4 : (4 * UInt32.ofNat i : UInt32).toNat = 4 * i % 2 ^ 32 := by
    rw [UInt32.toNat_mul, UInt32.toNat_ofNat']
    exact Nat.mul_mod_mod 4 i (2 ^ 32)
  have hbase : fpgaBaseaddr.toNat = 0x44A00000 := rfl
  have hhigh : fpgaHighaddr.toNat = 0x44AFFFFF := rfl
  have hnbytes : fpgaNbytes.toNat = 0x100000 := by decide +kernel
  rw [InFpga, UInt32.le_iff_toNat_le, UInt32.le_iff_toNat_le, UInt32.toNat_add, UInt32.toNat_add,
    h4, hbase, hhigh, hnbytes]
  omega

/-- What `casper_tapcp_open_mem` leaves for `/fpga` when it succeeds. -/
theorem openMem_ok {s s' : Tapcp} {fname : List UInt8} {off len : UInt32}
    (hfpga : (ascii "/fpga.").isPrefixOf fname = true)
    (hreq : memRequest s.write fname = (off, len)) (hopen : openMem s fname = (s', true)) :
    s' = openWords { s with
        ptr := fpgaBaseaddr + off
        nleft := toInt32 (if s.write then fpgaNbytes - off else len) } ∧
      off.toNat % 4 = 0 ∧ len.toNat % 4 = 0 ∧
      (s.write = false → len ≠ 0 ∧ (off + len).toNat ≤ fpgaNbytes.toNat) := by
  rw [memRequest] at hreq
  dsimp only at hreq
  rw [Prod.mk.injEq] at hreq
  obtain ⟨hoff, hlen⟩ := hreq
  rw [openMem, if_pos hfpga, openMemAt] at hopen
  split at hopen
  · simp at hopen
  · dsimp only at hopen
    rw [hoff, hlen] at hopen
    split at hopen
    · simp at hopen
    · next hcheck =>
      rw [if_neg (by simp)] at hopen
      rw [if_pos rfl, Prod.mk.injEq] at hopen
      refine ⟨hopen.1.symm, ?_, ?_, ?_⟩
      · rw [← hoff, toNat_and_not_three]
        omega
      · rw [← hlen, toNat_and_not_three]
        omega
      · intro hw
        rw [hw] at hcheck
        simpa [UInt32.lt_iff_toNat_lt, UInt32.le_iff_toNat_le] using hcheck

/-- The bytes a writer may write behind an offset. -/
theorem toNat_fpgaNbytes_sub (off : UInt32) :
    (fpgaNbytes - off).toNat = (2 ^ 32 - off.toNat + 0x100000) % 2 ^ 32 := by
  rw [UInt32.toNat_sub, show fpgaNbytes.toNat = 0x100000 by decide +kernel]

/-- What the check for `/fpga` accepts stays inside if and only if its numbers do. -/
theorem allowed_inFpga_iff {write : Bool} {off len : UInt32} (hoff : off.toNat % 4 = 0)
    (hlen : len.toNat % 4 = 0)
    (hread : write = false → len ≠ 0 ∧ (off + len).toNat ≤ fpgaNbytes.toNat) :
    (∀ i, Allowed write (toInt32 (if write then fpgaNbytes - off else len)) i →
      (off.toNat + 4 * i) % 2 ^ 32 < fpgaNbytes.toNat) ↔ FpgaInside write off len := by
  have hnbytes : fpgaNbytes.toNat = 0x100000 := by decide +kernel
  have holt := off.toNat_lt
  have hllt := len.toNat_lt
  rw [FpgaInside, hnbytes]
  cases write with
  | true =>
    have hsub := toNat_fpgaNbytes_sub off
    rw [if_pos rfl, if_pos rfl]
    constructor
    · intro h
      -- the first word is allowed unless the offset is the end of the FPGA
      by_contra hout
      have hvlt := (fpgaNbytes - off).toNat_lt
      have hallowed : Allowed true (toInt32 (fpgaNbytes - off)) 0 := by
        rcases Nat.lt_or_ge (fpgaNbytes - off).toNat (2 ^ 31) with hlt | hge
        · rw [toInt32_of_lt hlt]
          exact Or.inl (by omega)
        · rw [toInt32_of_le hge]
          exact Or.inr ⟨rfl, by omega⟩
      have hfirst := h 0 hallowed
      omega
    · intro hle i hi
      rw [toInt32_of_lt (by omega), hsub] at hi
      rcases hi with hi | ⟨-, hi⟩ <;> omega
  | false =>
    obtain ⟨hne, hsum⟩ := hread rfl
    have hpos : len.toNat ≠ 0 := fun he => hne (UInt32.toNat_inj.mp he)
    rw [UInt32.toNat_add, hnbytes] at hsum
    rw [if_neg (by decide), if_neg (by decide)]
    constructor
    · intro h
      by_contra hout
      have hnot := not_or.mp hout
      have hallowed : Allowed false (toInt32 len) 0 := by
        rw [toInt32_of_lt (by omega)]
        exact Or.inl (by omega)
      have hfirst := h 0 hallowed
      omega
    · rintro (hle | hbig) i hi
      · rw [toInt32_of_lt (by omega)] at hi
        rcases hi with hi | ⟨-, hi⟩ <;> omega
      · rw [toInt32_of_le hbig] at hi
        rcases hi with hi | ⟨hw, -⟩
        · omega
        · cases hw

/--
**A file `/fpga.…` that can be opened reaches only the FPGA if and only if the offset, and on reads
the length, stay inside it.**
-/
theorem openMem_within_iff {s s' : Tapcp} {fname mode : List UInt8} {write : Bool}
    (hfpga : (ascii "/fpga.").isPrefixOf fname = true)
    (hopen : openMem (tftpBegin s mode write) fname = (s', true)) :
    AccessesWithin env s' InFpga ↔
      FpgaInside write (memRequest write fname).1 (memRequest write fname).2 := by
  rcases hreq : memRequest write fname with ⟨off, len⟩
  obtain ⟨rfl, hoff, hlen, hread⟩ := openMem_ok hfpga hreq hopen
  have hmul : toInt32 (if write then fpgaNbytes - off else len) % 4 = 0 := by
    have hsub := toNat_fpgaNbytes_sub off
    have := off.toNat_lt
    unfold toInt32
    cases write with
    | true =>
      rw [if_pos rfl]
      split <;> omega
    | false =>
      rw [if_neg (show ¬false = true by decide)]
      split <;> omega
  rw [accessesWithin_iff env rfl rfl hmul]
  simp only [inFpga_word_iff]
  exact allowed_inFpga_iff hoff hlen hread

/-- A write of the last word. -/
theorem openMem_within_lastWord : ∃ s',
    openMem (tftpBegin Tapcp.zero (ascii "octet") true) (ascii "/fpga.FFFFC") = (s', true) ∧
    (AccessesWithin Env.zero s' InFpga ↔
      FpgaInside true (memRequest true (ascii "/fpga.FFFFC")).1
        (memRequest true (ascii "/fpga.FFFFC")).2) := by
  have hok : (openMem (tftpBegin Tapcp.zero (ascii "octet") true) (ascii "/fpga.FFFFC")).2 =
      true := by
    decide +kernel
  rcases hopen : openMem (tftpBegin Tapcp.zero (ascii "octet") true) (ascii "/fpga.FFFFC")
    with ⟨s', b⟩
  rw [hopen] at hok
  cases hok
  exact ⟨s', rfl, openMem_within_iff Env.zero (by decide +kernel) hopen⟩

/-- A write whose address wraps around to zero, which is memory of the processor. -/
theorem openMem_writes_cpu : ∃ s',
    openMem (tftpBegin Tapcp.zero (ascii "octet") true) (ascii "/fpga.BB600000") = (s', true) ∧
    ¬AccessesWithin Env.zero s' InFpga := by
  have hrun : ((openMem (tftpBegin Tapcp.zero (ascii "octet") true) (ascii "/fpga.BB600000")).2,
      (runCalls Env.zero [.write [[1, 2, 3, 4]]]
        { (openMem (tftpBegin Tapcp.zero (ascii "octet") true) (ascii "/fpga.BB600000")).1 with
          bus := [] }).map Tapcp.bus) =
      (true, some [.write 0 0x01020304]) := by
    decide +kernel
  rcases hopen : openMem (tftpBegin Tapcp.zero (ascii "octet") true) (ascii "/fpga.BB600000")
    with ⟨s', b⟩
  rw [hopen, Prod.mk.injEq] at hrun
  obtain ⟨rfl, hbus⟩ := hrun
  refine ⟨s', rfl, not_accessesWithin Env.zero hbus List.mem_cons_self ?_⟩
  rintro ⟨hle, -⟩
  exact absurd hle (by decide)

end MlibDevel.Jam
