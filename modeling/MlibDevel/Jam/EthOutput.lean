import MlibDevel.Jam.BinaryRead
import MlibDevel.Jam.BinaryWrite

/-!
# Sending a packet (`casper_eth.c`)

`casper_netif_output_impl` copies the bytes of a pbuf chain to the TX buffer of the ethernet core,
swaps the bytes of every word there, and writes the number of core words to the size register.  In
between it pads three times: to whole 32-bit words, to the 64 bytes of the shortest frame, and to
whole core words.

The last padding is an `if` where the others are loops: it adds one 32-bit word at most.  What the
truncating division by the core word size then cuts off depends on the length modulo the core word
(`netifOutput_sends_iff`).
-/

namespace MlibDevel.Jam

/-! ## Words in memory -/

/-- The word a little-endian processor loads from four bytes of memory. -/
def leWord (a b c d : UInt8) : UInt32 := beWord d c b a

/-- The whole words in memory. -/
def leWords : List UInt8 → List UInt32
  | a :: b :: c :: d :: bytes => leWord a b c d :: leWords bytes
  | _ => []

/-- `mb_swapb`: the bytes of a word in the other order. -/
def mbSwapb (word : UInt32) : UInt32 :=
  beWord (wordByte word 0) (wordByte word 8) (wordByte word 16) (wordByte word 24)

section

variable (a b c d : UInt8)

@[simp] theorem wordByte_beWord_0 : wordByte (beWord a b c d) 0 = d := by
  apply UInt8.toBitVec_inj.mp
  ext i hi
  simp [wordByte, beWord]

@[simp] theorem wordByte_beWord_8 : wordByte (beWord a b c d) 8 = c := by
  apply UInt8.toBitVec_inj.mp
  ext i hi
  simp [wordByte, beWord]
  grind

@[simp] theorem wordByte_beWord_16 : wordByte (beWord a b c d) 16 = b := by
  apply UInt8.toBitVec_inj.mp
  ext i hi
  simp [wordByte, beWord]
  grind

@[simp] theorem wordByte_beWord_24 : wordByte (beWord a b c d) 24 = a := by
  apply UInt8.toBitVec_inj.mp
  ext i hi
  simp [wordByte, beWord]
  grind

/-- Swapping the bytes of a word makes its first byte in memory the most significant one. -/
theorem mbSwapb_leWord : mbSwapb (leWord a b c d) = beWord a b c d := by
  simp [mbSwapb, leWord]

end

theorem map_mbSwapb_leWords : ∀ bytes : List UInt8, (leWords bytes).map mbSwapb = beWords bytes
  | [] => rfl
  | [_] => rfl
  | [_, _] => rfl
  | [_, _, _] => rfl
  | a :: b :: c :: d :: bytes => by
    rw [leWords, List.map_cons, mbSwapb_leWord, map_mbSwapb_leWords bytes, beWords]

/-! ## `casper_netif_output_impl` -/

/-- The values of `err_t` that the function returns. -/
inductive ErrT
  | ok | inProgress
  deriving DecidableEq, Repr

/-- The return value, the words in the TX buffer from its start on, and what has been written to the
size register. -/
structure TxOut where
  err : ErrT
  words : List UInt32
  size : Option UInt16
  deriving DecidableEq, Repr

/-- Read the size register until it is zero, at most so many times.  `txSize k` is the value of the
`k`-th read. -/
def waitTxFree (txSize : Nat → UInt16) : Nat → Nat → Bool
  | 0, _ => false
  | polls + 1, k => if txSize k = 0 then true else waitTxFree txSize polls (k + 1)

/-- The loop over the chain: the bytes copied to the TX buffer. -/
def copyChain : Pbuf → List UInt8
  | [] => []
  | q :: p =>
    let totLen := Pbuf.totLen (q :: p)
    let len := if q.length > totLen then totLen else q.length
    if totLen ≤ q.length then q.take len else q.take len ++ copyChain p

theorem toNat_and_three (n : UInt16) : (n &&& 3).toNat = n.toNat % 4 := by
  rw [UInt16.toNat_and]
  exact Nat.and_two_pow_sub_one_eq_mod n.toNat 2

/-- Zero-pad out to the next 32-bit word boundary. -/
def zeroPad (bytes : List UInt8) (bytesSent : UInt16) : List UInt8 × UInt16 :=
  if _h : bytesSent &&& 3 ≠ 0 then zeroPad (bytes ++ [0]) (bytesSent + 1) else (bytes, bytesSent)
termination_by (4 - bytesSent.toNat % 4) % 4
decreasing_by
  have hne : bytesSent.toNat % 4 ≠ 0 := by
    rw [← toNat_and_three]
    exact fun hzero => _h (UInt16.toNat_inj.mp hzero)
  rw [UInt16.toNat_add]
  simp only [UInt16.reduceToNat]
  omega

/-- The words of the TX buffer before the packet is padded to the shortest frame. -/
def swapWords (words : List UInt32) (n : Nat) : List UInt32 :=
  (words.take n).map mbSwapb ++ words.drop n

/-- Zeros written over the words from word `n` on. -/
def putZeros (words : List UInt32) (n k : Nat) : List UInt32 :=
  words.take n ++ List.replicate k 0 ++ words.drop (n + k)

/-- Ensure we meet minimum packet size. -/
def padFrame (words : List UInt32) (wordsSent32 : UInt16) : List UInt32 × UInt16 :=
  if wordsSent32 < 16 then (putZeros words wordsSent32.toNat (16 - wordsSent32.toNat), 16)
  else (words, wordsSent32)

/-- We have to send a multiple of the core word size. -/
def padCore (coreWordSize : UInt16) (words : List UInt32) (wordsSent32 : UInt16) :
    List UInt32 × UInt16 :=
  if wordsSent32.toUInt32 &&& (coreWordSize.toUInt32 / 4 - 1) ≠ 0 then
    (putZeros words wordsSent32.toNat 1, wordsSent32 + 1)
  else (words, wordsSent32)

/--
`casper_netif_output_impl`.  The reads of the size register after the packet has been handed over
only decide about a warning.
-/
def netifOutputImpl (txSize : Nat → UInt16) (coreWordSize : UInt16) (p : Pbuf) : TxOut :=
  if waitTxFree txSize 1000 0 then
    let bytes := copyChain p
    let (bytes, bytesSent) := zeroPad bytes (UInt16.ofNat bytes.length)
    let wordsSent32 := bytesSent >>> 2
    let words := swapWords (leWords bytes) wordsSent32.toNat
    let (words, wordsSent32) := padFrame words wordsSent32
    let (words, wordsSent32) := padCore coreWordSize words wordsSent32
    ⟨.ok, words, some (4 * wordsSent32.toUInt32 / coreWordSize.toUInt32).toUInt16⟩
  else ⟨.inProgress, [], none⟩

/-! ## What is to hold -/

/-- The size of the TX buffer. -/
def txBufSize : Nat := 0x4000

/--
The packet has been sent: the TX buffer holds its bytes, packed into words with the most significant
byte first, and zeros after them, and the core has been told to send all of the packet, at least the
64 bytes of the shortest frame, and nothing but what has been written.
-/
structure Sends (p : Pbuf) (coreWordSize : UInt16) (out : TxOut) : Prop where
  packed : ∃ pad, out.words = beWords (p.flatten ++ List.replicate pad 0) ∧
    4 * out.words.length = p.totLen + pad
  size : ∃ n, out.size = some n ∧ max p.totLen 64 ≤ n.toNat * coreWordSize.toNat ∧
    n.toNat * coreWordSize.toNat ≤ 4 * out.words.length

/-- The 32-bit words of a packet of so many bytes, when it is padded to the shortest frame. -/
def frameWords (len : Nat) : Nat := max ((len + 3) / 4) 16

/-! ## Copying and padding -/

/-- The whole chain is copied, also when the loop stops before empty buffers at its end. -/
theorem copyChain_eq : ∀ p : Pbuf, copyChain p = p.flatten
  | [] => rfl
  | q :: p => by
    have hlen : Pbuf.totLen (q :: p) = q.length + p.flatten.length := by
      simp [Pbuf.totLen]
    have hnot : ¬q.length > q.length + p.flatten.length := by omega
    simp only [copyChain, hlen, if_neg hnot, List.take_length, copyChain_eq p, List.flatten_cons]
    split
    · have hnil : p.flatten = [] := List.length_eq_zero_iff.mp (by omega)
      rw [hnil, List.append_nil]
    · rfl

theorem zeroPad_eq : ∀ (k : Nat) {bytes : List UInt8} {n : UInt16}, k = (4 - n.toNat % 4) % 4 →
    n.toNat + k < 2 ^ 16 →
    zeroPad bytes n = (bytes ++ List.replicate k 0, n + UInt16.ofNat k)
  | 0, bytes, n, hk, _ => by
    have hzero : n &&& 3 = 0 := UInt16.toNat_inj.mp (by rw [toNat_and_three]; simp; omega)
    rw [zeroPad, dif_neg (not_not.mpr hzero)]
    simp
  | k + 1, bytes, n, hk, hlt => by
    have hne : n &&& 3 ≠ 0 := by
      intro hzero
      have := toNat_and_three n
      rw [hzero, UInt16.toNat_zero] at this
      omega
    have hsucc : (n + 1).toNat = n.toNat + 1 := by
      rw [UInt16.toNat_add]
      simp only [UInt16.reduceToNat]
      omega
    rw [zeroPad, dif_pos hne, zeroPad_eq k (by omega) (by omega)]
    simp [List.replicate_succ, UInt16.add_assoc, UInt16.add_comm 1]

theorem length_leWords : ∀ bytes : List UInt8, (leWords bytes).length = bytes.length / 4
  | [] => rfl
  | [_] => by simp [leWords]
  | [_, _] => by simp [leWords]
  | [_, _, _] => by simp [leWords]
  | a :: b :: c :: d :: bytes => by
    rw [leWords, List.length_cons, length_leWords bytes]
    simp only [List.length_cons]
    omega

theorem length_beWords (bytes : List UInt8) : (beWords bytes).length = bytes.length / 4 := by
  rw [← map_mbSwapb_leWords, List.length_map, length_leWords]

theorem beWords_zeros : ∀ k, beWords (List.replicate (4 * k) 0) = List.replicate k 0
  | 0 => rfl
  | k + 1 => by
    show beWord 0 0 0 0 :: beWords (List.replicate (4 * k) 0) = _
    rw [beWords_zeros k]
    rfl

theorem swapWords_all (bytes : List UInt8) :
    swapWords (leWords bytes) (bytes.length / 4) = beWords bytes := by
  rw [swapWords, List.take_of_length_le (by rw [length_leWords]), map_mbSwapb_leWords,
    List.drop_of_length_le (by rw [length_leWords]), List.append_nil]

/-- Zeros after the last word. -/
theorem putZeros_beWords (bytes : List UInt8) (hbytes : bytes.length % 4 = 0) (k : Nat) :
    putZeros (beWords bytes) (bytes.length / 4) k =
      beWords (bytes ++ List.replicate (4 * k) 0) := by
  rw [putZeros, List.take_of_length_le (by rw [length_beWords]),
    List.drop_of_length_le (by rw [length_beWords]; omega), List.append_nil,
    beWords_append _ hbytes, beWords_zeros]

/-! ## The call -/

theorem waitTxFree_of_zero {txSize : Nat → UInt16} : ∀ {polls k i : Nat}, i < polls →
    txSize (k + i) = 0 → waitTxFree txSize polls k = true
  | polls + 1, k, i, hi, hzero => by
    rw [waitTxFree]
    split
    · rfl
    · next hne =>
      cases i with
      | zero => exact absurd hzero hne
      | succ i =>
        exact waitTxFree_of_zero (i := i) (by omega) (by rwa [Nat.add_assoc, Nat.add_comm 1])

/-- The packet in the TX buffer, padded to `n` words. -/
def paddedWords (p : Pbuf) (n : Nat) : List UInt32 :=
  beWords (p.flatten ++ List.replicate (4 * n - p.totLen) 0)

/-- The number of 32-bit words with the one that pads to whole core words. -/
def sentWords (coreWordSize : UInt16) (len : Nat) : Nat :=
  if frameWords len % (coreWordSize.toNat / 4) = 0 then frameWords len else frameWords len + 1

section

variable {p : Pbuf} {n : Nat} (hfull : p.totLen ≤ 4 * n)

include hfull

/-- More zeros. -/
theorem putZeros_paddedWords (k : Nat) :
    putZeros (paddedWords p n) n k = paddedWords p (n + k) := by
  have hlen : (p.flatten ++ List.replicate (4 * n - p.totLen) (0 : UInt8)).length = 4 * n := by
    rw [List.length_append, List.length_replicate]
    unfold Pbuf.totLen at *
    omega
  have hput := putZeros_beWords (p.flatten ++ List.replicate (4 * n - p.totLen) 0) (by omega) k
  rw [hlen, Nat.mul_div_cancel_left n (by decide), List.append_assoc,
    List.replicate_append_replicate]
    at hput
  rw [paddedWords, hput, paddedWords,
    show 4 * n - p.totLen + 4 * k = 4 * (n + k) - p.totLen by omega]

variable (hn : n < 2 ^ 15)

include hn

theorem padFrame_eq :
    padFrame (paddedWords p n) (UInt16.ofNat n) =
      (paddedWords p (max n 16), UInt16.ofNat (max n 16)) := by
  have hnat : (UInt16.ofNat n).toNat = n := UInt16.toNat_ofNat_of_lt' (by
    unfold UInt16.size
    omega)
  have hlt : UInt16.ofNat n < 16 ↔ n < 16 := by
    rw [UInt16.lt_iff_toNat_lt, hnat]
    rfl
  simp only [padFrame, hlt, hnat]
  split
  · next h =>
    rw [putZeros_paddedWords hfull, Nat.max_eq_right (by omega), Nat.add_sub_cancel' (by omega)]
    rfl
  · rw [Nat.max_eq_left (by omega)]

theorem padCore_eq {coreWordSize : UInt16} {j : Nat} (hj : 2 ≤ j)
    (hsize : coreWordSize.toNat = 2 ^ j) :
    padCore coreWordSize (paddedWords p n) (UInt16.ofNat n) =
      let n' := if n % (coreWordSize.toNat / 4) = 0 then n else n + 1
      (paddedWords p n', UInt16.ofNat n') := by
  have hnat : (UInt16.ofNat n).toNat = n := UInt16.toNat_ofNat_of_lt' (by
    unfold UInt16.size
    omega)
  -- the core word is a power of two, so the mask is the remainder
  have hmask : (UInt16.ofNat n).toUInt32 &&& (coreWordSize.toUInt32 / 4 - 1) = 0 ↔
      n % (coreWordSize.toNat / 4) = 0 := by
    have hdiv : coreWordSize.toNat / 4 = 2 ^ (j - 2) := by
      rw [hsize, show (4 : Nat) = 2 ^ 2 from rfl, Nat.pow_div hj (by decide)]
    have hpos := Nat.two_pow_pos (j - 2)
    have hlt := coreWordSize.toNat_lt
    have hnatMask : (coreWordSize.toUInt32 / 4 - 1).toNat = 2 ^ (j - 2) - 1 := by
      rw [UInt32.toNat_sub, UInt32.toNat_div, UInt16.toNat_toUInt32]
      simp only [UInt32.reduceToNat]
      omega
    rw [← UInt32.toNat_inj, UInt32.toNat_and, hnatMask, UInt16.toNat_toUInt32, hnat,
      Nat.and_two_pow_sub_one_eq_mod, hdiv]
    rfl
  simp only [padCore, ne_eq, hmask, hnat]
  by_cases h : n % (coreWordSize.toNat / 4) = 0
  · rw [if_neg (not_not.mpr h), if_pos h]
  · rw [if_pos h, if_neg h, putZeros_paddedWords hfull, UInt16.ofNat_add]
    rfl

end

/-- What a call does that finds the TX buffer free. -/
theorem netifOutputImpl_eq {txSize : Nat → UInt16} {coreWordSize : UInt16} {p : Pbuf} {i j : Nat}
    (hi : i < 1000) (hfree : txSize i = 0) (hfits : p.totLen ≤ txBufSize) (hj : 2 ≤ j)
    (hsize : coreWordSize.toNat = 2 ^ j) :
    netifOutputImpl txSize coreWordSize p =
      let n := sentWords coreWordSize p.totLen
      ⟨.ok, paddedWords p n, some (UInt16.ofNat (4 * n / coreWordSize.toNat))⟩ := by
  have hbuf : txBufSize = 0x4000 := rfl
  have hlen : p.flatten.length = p.totLen := rfl
  have hwait : waitTxFree txSize 1000 0 = true :=
    waitTxFree_of_zero hi (by rwa [Nat.zero_add])
  have hnat : (UInt16.ofNat p.totLen).toNat = p.totLen := UInt16.toNat_ofNat_of_lt' (by
    unfold UInt16.size
    omega)
  have hpad : zeroPad p.flatten (UInt16.ofNat p.totLen) =
      (p.flatten ++ List.replicate (4 * ((p.totLen + 3) / 4) - p.totLen) 0,
        UInt16.ofNat (4 * ((p.totLen + 3) / 4))) := by
    rw [zeroPad_eq _ rfl (by omega), hnat, ← UInt16.ofNat_add]
    congr 3 <;> omega
  generalize hw : (p.totLen + 3) / 4 = w at hpad
  have hshift : UInt16.ofNat (4 * w) >>> 2 = UInt16.ofNat w := by
    apply UInt16.toNat_inj.mp
    rw [UInt16.toNat_shiftRight, UInt16.toNat_ofNat', UInt16.toNat_ofNat',
      Nat.shiftRight_eq_div_pow]
    show 4 * w % 2 ^ 16 / 4 = _
    omega
  have hwNat : (UInt16.ofNat w).toNat = w := UInt16.toNat_ofNat_of_lt' (by
    unfold UInt16.size
    omega)
  have hwords : swapWords (leWords (p.flatten ++ List.replicate (4 * w - p.totLen) 0)) w =
      paddedWords p w := by
    have hall := swapWords_all (p.flatten ++ List.replicate (4 * w - p.totLen) 0)
    rwa [List.length_append, List.length_replicate, hlen,
      show (p.totLen + (4 * w - p.totLen)) / 4 = w by omega] at hall
  have hframe : frameWords p.totLen = max w 16 := by rw [frameWords, hw]
  simp only [netifOutputImpl, hwait, if_true, copyChain_eq, hlen, hpad, hshift, hwNat, hwords,
    padFrame_eq (show p.totLen ≤ 4 * w by omega) (show w < 2 ^ 15 by omega),
    padCore_eq (show p.totLen ≤ 4 * max w 16 by omega) (show max w 16 < 2 ^ 15 by omega) hj hsize]
  rw [← hframe]
  show TxOut.mk .ok (paddedWords p (sentWords coreWordSize p.totLen))
    (some (4 * (UInt16.ofNat (sentWords coreWordSize p.totLen)).toUInt32 /
      coreWordSize.toUInt32).toUInt16) = _
  have hsent : sentWords coreWordSize p.totLen < 2 ^ 15 := by
    unfold sentWords
    split <;> omega
  generalize sentWords coreWordSize p.totLen = n at hsent
  congr 2
  apply UInt16.toNat_inj.mp
  rw [UInt32.toNat_toUInt16, UInt32.toNat_div, UInt32.toNat_mul, UInt16.toNat_toUInt32,
    UInt16.toNat_toUInt32, UInt16.toNat_ofNat', UInt16.toNat_ofNat', Nat.mod_eq_of_lt (a := n)
    (by omega)]
  simp only [UInt32.reduceToNat]
  rw [Nat.mod_eq_of_lt (a := 4 * n) (by omega)]

/-- One word of padding completes the last group of `q` words, or the division cuts words off. -/
theorem le_mul_div_padded_iff {q : Nat} (hq : 0 < q) (f : Nat) :
    f ≤ q * ((if f % q = 0 then f else f + 1) / q) ↔ f % q = 0 ∨ f % q = q - 1 := by
  have hf := Nat.div_add_mod f q
  have hr := Nat.mod_lt f hq
  generalize f / q = d at hf
  generalize f % q = r at hf hr
  subst hf
  split
  · next hzero =>
    rw [hzero, Nat.add_zero, Nat.mul_div_cancel_left d hq]
    simp
  · next hne =>
    rw [Nat.add_assoc, Nat.mul_add_div hq]
    rcases Nat.lt_or_ge (r + 1) q with hlt | hge
    · rw [Nat.div_eq_of_lt hlt, Nat.add_zero]
      omega
    · obtain rfl : q = r + 1 := by omega
      rw [Nat.div_self hq, Nat.mul_add, Nat.mul_one]
      omega

/-- What the core has to send is what the words of the frame hold. -/
theorem max_le_iff_frameWords {len m : Nat} : max len 64 ≤ 4 * m ↔ frameWords len ≤ m := by
  unfold frameWords
  omega

/--
**A packet is sent as a whole if and only if the words of its frame fill the core words, or leave
one word of the last one**: then the one word of padding completes it.
-/
theorem netifOutput_sends_iff {txSize : Nat → UInt16} {coreWordSize : UInt16} {p : Pbuf}
    (hfree : ∃ i < 1000, txSize i = 0) (hfits : p.totLen ≤ txBufSize)
    (hsize : ∃ j, 2 ≤ j ∧ coreWordSize.toNat = 2 ^ j) :
    Sends p coreWordSize (netifOutputImpl txSize coreWordSize p) ↔
      frameWords p.totLen % (coreWordSize.toNat / 4) = 0 ∨
        frameWords p.totLen % (coreWordSize.toNat / 4) = coreWordSize.toNat / 4 - 1 := by
  obtain ⟨i, hi, hzero⟩ := hfree
  obtain ⟨j, hj, hpow⟩ := hsize
  have hbuf : txBufSize = 0x4000 := rfl
  rw [netifOutputImpl_eq hi hzero hfits hj hpow]
  have hdvd : 4 ∣ coreWordSize.toNat := by
    rw [hpow]
    exact pow_dvd_pow 2 hj
  have hcore := Nat.mul_div_cancel' hdvd
  have hpos := Nat.two_pow_pos j
  have hq : 0 < coreWordSize.toNat / 4 := by omega
  rw [← le_mul_div_padded_iff hq]
  generalize hqdef : coreWordSize.toNat / 4 = q at *
  -- the words written and the words sent
  have hn : p.totLen ≤ 4 * sentWords coreWordSize p.totLen ∧
      sentWords coreWordSize p.totLen < 2 ^ 15 := by
    unfold sentWords frameWords
    split <;> omega
  have hword :
    (if frameWords p.totLen % q = 0 then frameWords p.totLen else frameWords p.totLen + 1) =
      sentWords coreWordSize p.totLen := by
    rw [sentWords, hqdef]
  rw [hword]
  generalize sentWords coreWordSize p.totLen = n at hn
  have hlen : (paddedWords p n).length = n := by
    rw [paddedWords, length_beWords, List.length_append, List.length_replicate]
    unfold Pbuf.totLen at *
    omega
  have hdiv : (UInt16.ofNat (4 * n / coreWordSize.toNat)).toNat = n / q := by
    rw [← hcore, Nat.mul_div_mul_left _ _ (by decide), UInt16.toNat_ofNat']
    exact Nat.mod_eq_of_lt (Nat.lt_of_le_of_lt (Nat.div_le_self n q) (by omega))
  have hsent : n / q * coreWordSize.toNat = 4 * (q * (n / q)) := by
    rw [← hcore]
    rw [Nat.mul_comm, Nat.mul_assoc]
  constructor
  · rintro ⟨-, size, hsome, hge, -⟩
    cases hsome
    rw [hdiv, hsent] at hge
    exact max_le_iff_frameWords.mp hge
  · intro hge
    refine ⟨⟨4 * n - p.totLen, rfl, by rw [hlen]; omega⟩, _, rfl, ?_, ?_⟩
    · rw [hdiv, hsent]
      exact max_le_iff_frameWords.mpr hge
    · rw [hdiv, hsent, hlen]
      exact Nat.mul_le_mul_left 4 (Nat.mul_div_le n q)

/-- 61 bytes in two buffers and a core of 16-byte words. -/
theorem netifOutput_sends_sixtyOne :
    Sends [List.replicate 60 1, [2]] 16
      (netifOutputImpl (fun k => if k = 3 then 0 else 8) 16 [List.replicate 60 1, [2]]) :=
  (netifOutput_sends_iff ⟨3, by decide, by decide⟩ (by decide) ⟨4, by decide, by decide⟩).mpr
    (Or.inl (by decide))

/-- 68 bytes and a core of 32-byte words: the core is told to send two of them, 64 bytes. -/
theorem netifOutput_sixtyEight_not_sends :
    ¬Sends [List.replicate 68 1] 32 (netifOutputImpl (fun _ => 0) 32 [List.replicate 68 1]) := by
  rw [netifOutputImpl_eq (i := 0) (j := 5) (by decide) rfl (by decide) (by decide) (by decide)]
  rintro ⟨-, size, hsome, hge, -⟩
  cases hsome
  exact absurd hge (by decide)

end MlibDevel.Jam
