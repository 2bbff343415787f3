import MlibDevel.Jam.EthOutput

/-!
# Receiving packets (`casper_eth.c`)

`casper_rx_packet` handles frames as long as the core has one.  It takes a pbuf chain of the size of
the frame from the pool, swaps the bytes of the words in the RX buffer, copies them to the buffers
of the chain, acknowledges the frame and hands the chain to the stack.  Frames that are too large,
or for which there is no chain, are acknowledged and dropped.

The size is the product of the word count and the word size, kept in 16 bits.  A frame of 2¹⁶ bytes
or more is taken for a shorter one, and dropped only when that is too large as well
(`rxPacket_handles_iff`).
-/

namespace MlibDevel.Jam

/-! ## `casper_rx_packet` -/

/-- `ETHERNET_MTU` -/
def ethernetMtu : Nat := 1500

/-- `SIZEOF_ETH_HDR` -/
def sizeofEthHdr : Nat := 14

/-- A frame in the RX buffer, with its size in core words and the size of such a word.  `alloc` is
what `pbuf_alloc` has for a size at this time. -/
structure RxFrame where
  nwords : UInt16
  nonzero : nwords ≠ 0
  wordSize : UInt16
  rx : Nat → UInt32
  alloc : UInt16 → Option Pbuf

/-- What is done about a frame. -/
inductive RxEvent
  /-- zero is written to the size register -/
  | ack
  /-- the chain is passed to the input function of the stack -/
  | deliver (p : Pbuf)

/-- The bytes of a word in memory. -/
def leBytes (word : UInt32) : List UInt8 :=
  [wordByte word 0, wordByte word 8, wordByte word 16, wordByte word 24]

namespace RxFrame

variable (f : RxFrame)

/-- `size`, rounded up to 32 bits -/
def size : UInt16 :=
  let size := f.nwords * f.wordSize
  UInt16.ofNat (4 * ((size.toNat + 3) / 4))

/-- The byte-swapped words of the frame, as bytes. -/
def swapped (size32 : Nat) : List UInt8 :=
  (List.range size32).flatMap fun i => leBytes (mbSwapb (f.rx i))

end RxFrame

/--
The loop that walks the chain: what the buffers hold after it.  It ends with the buffer that takes
the last byte, whose `tot_len` is set to its `len`; those after it stay as they are.
-/
def fillChain : Pbuf → Nat → List UInt8 → Pbuf
  | [], _, _ => []
  | q :: p, bytesRemaining, inbuf8 =>
    let (len, totLen) := if bytesRemaining ≤ q.length then (bytesRemaining, bytesRemaining)
      else (q.length, Pbuf.totLen (q :: p))
    if totLen ≤ len then inbuf8.take len :: p
    else inbuf8.take len :: fillChain p (bytesRemaining - len) (inbuf8.drop len)

/-- The body of the loop of `casper_rx_packet`. -/
def rxFrame (f : RxFrame) : List RxEvent :=
  let size32 := f.size >>> 2
  if f.size.toNat > ethernetMtu + sizeofEthHdr then [.ack]
  else
    match f.alloc f.size with
    | none => [.ack]
    | some p =>
      [.ack, .deliver (fillChain p (size32 <<< 2).toNat (f.swapped size32.toNat))]

/-- `casper_rx_packet`, with the frames that arrive until the size register reads zero. -/
def rxPacket (frames : List RxFrame) : List (List RxEvent) := frames.map rxFrame

/-! ## What is to hold -/

/-- The number of bytes in a frame: the exact product, rounded up to a multiple of 4. -/
def RxFrame.exactSize (f : RxFrame) : Nat := 4 * ((f.nwords.toNat * f.wordSize.toNat + 3) / 4)

/-- The first `n` bytes of a frame in network order. -/
def RxFrame.bytes (f : RxFrame) (n : Nat) : List UInt8 :=
  (List.range (n / 4)).flatMap fun i => be32 (f.rx i).toNat

/-- The frame is acknowledged once, and dropped or delivered as a whole. -/
def Handled (f : RxFrame) (events : List RxEvent) : Prop :=
  events = [.ack] ∨ ∃ p : Pbuf, events = [.ack, .deliver p] ∧ p.flatten = f.bytes f.exactSize

/-! ## Copying -/

/-- Swapping the bytes of a word puts its most significant one first in memory. -/
theorem leBytes_mbSwapb (word : UInt32) : leBytes (mbSwapb word) = be32 word.toNat := by
  rw [← wordBytes_eq]
  simp [leBytes, mbSwapb]

theorem swapped_eq (f : RxFrame) (n : Nat) : f.swapped n = f.bytes (4 * n) := by
  rw [RxFrame.swapped, RxFrame.bytes, Nat.mul_div_cancel_left n (by decide)]
  simp only [leBytes_mbSwapb]

theorem length_bytes (f : RxFrame) (n : Nat) : (f.bytes n).length = 4 * (n / 4) := by
  simp [RxFrame.bytes, Nat.mul_comm]

/-- A chain of the right length is filled with all the bytes, however it is cut. -/
theorem fillChain_flatten : ∀ (p : Pbuf) (bytes : List UInt8), p.totLen = bytes.length →
    (fillChain p bytes.length bytes).flatten = bytes
  | [], bytes, h => by
    rw [List.length_eq_zero_iff.mp h.symm]
    rfl
  | q :: p, bytes, h => by
    have hlen : q.length + p.flatten.length = bytes.length := by
      rw [← h]
      simp [Pbuf.totLen]
    by_cases hlast : bytes.length ≤ q.length
    · -- the last byte goes to this buffer, and those after it are empty
      have hnil : p.flatten = [] := List.length_eq_zero_iff.mp (by omega)
      simp [fillChain, hlast, hnil]
    · have htot : ¬Pbuf.totLen (q :: p) ≤ q.length := by omega
      have hrest : p.flatten.length = (bytes.drop q.length).length := by
        rw [List.length_drop]
        omega
      have ih := fillChain_flatten p (bytes.drop q.length) hrest
      rw [List.length_drop] at ih
      simp only [fillChain, if_neg hlast, if_neg htot, List.flatten_cons, ih, List.take_append_drop]

/-! ## The size of a frame -/

/-- The size is the exact one modulo 2¹⁶. -/
theorem toNat_size (f : RxFrame) : f.size.toNat = f.exactSize % 2 ^ 16 := by
  rw [RxFrame.size, UInt16.toNat_ofNat', UInt16.toNat_mul, RxFrame.exactSize]
  omega

theorem toNat_size32 (f : RxFrame) : (f.size >>> 2).toNat = f.size.toNat / 4 := by
  rw [UInt16.toNat_shiftRight, Nat.shiftRight_eq_div_pow]
  rfl

theorem toNat_size32_shl (f : RxFrame) : (f.size >>> 2 <<< 2).toNat = f.size.toNat := by
  have hmod : f.size.toNat % 4 = 0 := by
    rw [toNat_size, RxFrame.exactSize]
    omega
  have hlt := f.size.toNat_lt
  rw [UInt16.toNat_shiftLeft, toNat_size32, Nat.shiftLeft_eq]
  show f.size.toNat / 4 * 4 % 2 ^ 16 = _
  omega

/-- What a chain of the size of the frame is filled with. -/
theorem rxFrame_delivers {f : RxFrame} {p : Pbuf} (hp : p.totLen = f.size.toNat) :
    (fillChain p (f.size >>> 2 <<< 2).toNat (f.swapped (f.size >>> 2).toNat)).flatten =
      f.bytes f.size.toNat := by
  have hmod : f.size.toNat % 4 = 0 := by
    rw [toNat_size, RxFrame.exactSize]
    omega
  have hbytes : f.swapped (f.size >>> 2).toNat = f.bytes f.size.toNat := by
    rw [swapped_eq, toNat_size32, Nat.mul_div_cancel' (Nat.dvd_of_mod_eq_zero hmod)]
  have hlen : (f.bytes f.size.toNat).length = f.size.toNat := by
    rw [length_bytes]
    omega
  have hfill := fillChain_flatten p (f.bytes f.size.toNat) (by rw [hp, hlen])
  rw [hlen] at hfill
  rw [toNat_size32_shl, hbytes, hfill]

/-- The chain has the size that was asked for (what `pbuf_alloc` promises). -/
def RxFrame.AllocsExactly (f : RxFrame) : Prop :=
  ∀ size p, f.alloc size = some p → p.totLen = size.toNat

/-- The size fits 16 bits, or the frame is dropped. -/
def RxFrame.SizeFits (f : RxFrame) : Prop :=
  f.exactSize < 2 ^ 16 ∨ ethernetMtu + sizeofEthHdr < f.exactSize % 2 ^ 16 ∨
    f.alloc (UInt16.ofNat f.exactSize) = none

/-- One pass of the loop. -/
theorem rxFrame_handled_iff {f : RxFrame} (halloc : f.AllocsExactly) :
    Handled f (rxFrame f) ↔ f.SizeFits := by
  have hsize := toNat_size f
  have hofNat : UInt16.ofNat f.exactSize = f.size := by
    apply UInt16.toNat_inj.mp
    rw [UInt16.toNat_ofNat', hsize]
  rw [RxFrame.SizeFits, hofNat, ← hsize, rxFrame]
  split
  · next hlarge => exact iff_of_true (Or.inl rfl) (Or.inr (Or.inl hlarge))
  · next hsmall =>
    split
    · next hnone => exact iff_of_true (Or.inl rfl) (Or.inr (Or.inr hnone))
    · next p hp =>
      have hbytes := rxFrame_delivers (halloc _ p hp)
      constructor
      · rintro (hdrop | ⟨p', hdeliver, hflat⟩)
        · simp at hdrop
        · -- the lengths of what is delivered and of the frame agree
          simp only [List.cons.injEq, RxEvent.deliver.injEq, and_true, true_and] at hdeliver
          rw [← hdeliver, hbytes] at hflat
          have hlen := congrArg List.length hflat
          rw [length_bytes, length_bytes] at hlen
          have hlt := f.size.toNat_lt
          left
          unfold RxFrame.exactSize at *
          omega
      · rintro (hlt | hlarge | hnone)
        · refine Or.inr ⟨_, rfl, ?_⟩
          rw [hbytes, hsize, Nat.mod_eq_of_lt hlt]
        · exact absurd hlarge hsmall
        · rw [hp] at hnone
          cases hnone

/--
**Every frame is acknowledged once and dropped or delivered as a whole, if and only if** no frame of
2¹⁶ bytes or more is taken for a short one that is delivered.
-/
theorem rxPacket_handles_iff {frames : List RxFrame} (halloc : ∀ f ∈ frames, f.AllocsExactly) :
    List.Forall₂ Handled frames (rxPacket frames) ↔ ∀ f ∈ frames, f.SizeFits := by
  rw [rxPacket, List.forall₂_map_right_iff, List.forall₂_same]
  exact forall₂_congr fun f hf => rxFrame_handled_iff (halloc f hf)

/-- A frame of so many words of eight bytes, with room for it in one buffer. -/
def RxFrame.ofWords (nwords : UInt16) (nonzero : nwords ≠ 0) : RxFrame where
  nwords
  nonzero
  wordSize := 8
  rx i := UInt32.ofNat i
  alloc size := some [List.replicate size.toNat 0]

theorem RxFrame.ofWords_allocs {nwords : UInt16} (h : nwords ≠ 0) :
    (RxFrame.ofWords nwords h).AllocsExactly := by
  rintro size p ⟨⟩
  simp [Pbuf.totLen]

/-- Two frames of 64 and of 1600 bytes. -/
theorem rxPacket_handles_two :
    let frames := [RxFrame.ofWords 8 (by decide), RxFrame.ofWords 200 (by decide)]
    List.Forall₂ Handled frames (rxPacket frames) := by
  refine (rxPacket_handles_iff ?_).mpr ?_
  · simp only [List.mem_cons, List.not_mem_nil, or_false, forall_eq_or_imp, forall_eq]
    exact ⟨RxFrame.ofWords_allocs _, RxFrame.ofWords_allocs _⟩
  · simp only [List.mem_cons, List.not_mem_nil, or_false, forall_eq_or_imp, forall_eq]
    exact ⟨Or.inl (by decide), Or.inl (by decide)⟩

/-- 8200 words are 65600 bytes, of which 64 are delivered. -/
theorem rxPacket_wraps :
    let frames := [RxFrame.ofWords 8200 (by decide)]
    ¬List.Forall₂ Handled frames (rxPacket frames) := by
  intro frames h
  obtain ⟨hhandled, -⟩ := List.forall₂_cons.mp h
  rcases (rxFrame_handled_iff (RxFrame.ofWords_allocs _)).mp hhandled with hlt | hlarge | hnone
  · exact absurd hlt (by decide)
  · exact absurd hlarge (by decide)
  · cases hnone

end MlibDevel.Jam
