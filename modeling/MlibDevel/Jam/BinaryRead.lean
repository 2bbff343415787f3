import MlibDevel.Jam.WordAccess

/-!
# Binary reads

`casper_tapcp_read_fpga_words_binary` sends words most significant byte first.  Which byte of the
word is next follows from the number of bytes left, and the word itself stays in a static variable
from one call to the next.

A call does not know where the calls before it stopped: two calls return what one call with the room
of both returns (`fpgaWordsLoop_add`).  So only a single call has to be looked at, and there every
word is loaded before a byte of it is sent.
-/

namespace MlibDevel.Jam

open Lib

variable (env : Env)

/-- Successive calls of `casper_tapcp_read_fpga_words_binary`, with the room in the buffer of
each. -/
def readCalls : List Nat → Tapcp → Tapcp × List ReadOut
  | [], s => (s, [])
  | bytes :: sizes, s =>
    let (s, out) := readFpgaWordsBinary env s bytes
    let (s', outs) := readCalls sizes s
    (s', out :: outs)

/-- The big-endian bytes of the `k` words from an address on. -/
def Env.beBytesAt (addr : UInt32) (k : Nat) : List UInt8 :=
  (env.wordsAt addr k).flatMap fun word => be32 word.toNat

/-! ## The end of a call is no boundary -/

/-- Nothing is left to send. -/
theorem fpgaWordsLoop_done {s : Tapcp} (h : ¬s.nleft > 0) : ∀ n, fpgaWordsLoop env n s = (s, [])
  | 0 => rfl
  | _ + 1 => if_neg h

/-- A loop with room for `m + n` bytes goes on where the loop with room for `m` stopped. -/
theorem fpgaWordsLoop_add (n : Nat) : ∀ (m : Nat) (s : Tapcp),
    fpgaWordsLoop env (m + n) s =
      ((fpgaWordsLoop env n (fpgaWordsLoop env m s).1).1,
        (fpgaWordsLoop env m s).2 ++ (fpgaWordsLoop env n (fpgaWordsLoop env m s).1).2)
  | 0, s => by simp [fpgaWordsLoop]
  | m + 1, s => by
    by_cases hleft : s.nleft > 0
    · rw [Nat.add_right_comm]
      simp only [fpgaWordsLoop, if_pos hleft]
      split
      · rw [fpgaWordsLoop_add n m]
        rfl
      · rw [fpgaWordsLoop_add n m]
        rfl
    · simp only [fpgaWordsLoop_done env hleft, List.append_nil]

/-- Successive calls return what one call with the room of all of them returns. -/
theorem readCalls_eq_loop : ∀ (sizes : List Nat) (s : Tapcp),
    (readCalls env sizes s).1 = (fpgaWordsLoop env sizes.sum s).1 ∧
      (readCalls env sizes s).2.flatMap ReadOut.buf = (fpgaWordsLoop env sizes.sum s).2
  | [], _ => ⟨rfl, rfl⟩
  | bytes :: sizes, s => by
    obtain ⟨hstate, hbytes⟩ := readCalls_eq_loop sizes (fpgaWordsLoop env bytes s).1
    rw [List.sum_cons, fpgaWordsLoop_add]
    exact ⟨hstate, congrArg ((fpgaWordsLoop env bytes s).2 ++ ·) hbytes⟩

/-- A call returns the number of bytes it has stored. -/
theorem readCalls_ret : ∀ (sizes : List Nat) (s : Tapcp),
    ∀ out ∈ (readCalls env sizes s).2, out.ret = out.buf.length
  | [], _, _, h => by simp [readCalls] at h
  | bytes :: sizes, s, out, h => by
    rcases List.mem_cons.mp h with rfl | hrest
    · rfl
    · exact readCalls_ret sizes _ out hrest

/-! ## One call -/

/-- The bytes of a word by shifts are its big-endian bytes. -/
theorem wordBytes_eq (word : UInt32) :
    [wordByte word 24, wordByte word 16, wordByte word 8, wordByte word 0] = be32 word.toNat := by
  have hbyte : ∀ shift : UInt32, shift.toNat < 32 →
      wordByte word shift = UInt8.ofNat (word.toNat / 2 ^ shift.toNat) := by
    intro shift hshift
    apply UInt8.toNat_inj.mp
    rw [wordByte, UInt32.toNat_toUInt8, UInt32.toNat_shiftRight, Nat.mod_eq_of_lt hshift,
      Nat.shiftRight_eq_div_pow, UInt8.toNat_ofNat']
  rw [hbyte 24 (by decide), hbyte 16 (by decide), hbyte 8 (by decide), hbyte 0 (by decide), be32]
  simp

/-- The word at the pointer is loaded, `i` of its bytes are still to be sent and `k` more words. -/
def inWord (s : Tapcp) (k i : Nat) : Tapcp :=
  { s with
    nleft := 4 * k + i
    readWord := env.load32 s.ptr
    ptr := s.ptr + 4
    bus := s.bus ++ [.read s.ptr] }

section

variable {s : Tapcp} {k : Nat} (hleft : s.nleft = 4 * (k + 1 : Nat))

include hleft in
/-- The first byte of a word.  What the static word held before is not used. -/
theorem fpgaWordsLoop_first (n : Nat) :
    fpgaWordsLoop env (n + 1) s =
      ((fpgaWordsLoop env n (inWord env s k 3)).1,
        wordByte (env.load32 s.ptr) 24 :: (fpgaWordsLoop env n (inWord env s k 3)).2) := by
  have hnext : s.nleft - 1 = 4 * k + (3 : Nat) := by omega
  rw [fpgaWordsLoop, if_pos (by omega)]
  simp only [hnext]
  rw [if_pos (by omega)]
  rfl

/-- Another byte of the word, with `i` of its bytes left to send after it. -/
theorem fpgaWordsLoop_next {i : Nat} (hi : i < 3) (n : Nat) :
    fpgaWordsLoop env (n + 1) (inWord env s k (i + 1)) =
      ((fpgaWordsLoop env n (inWord env s k i)).1,
        wordByte (env.load32 s.ptr) (UInt32.ofNat (8 * i)) ::
          (fpgaWordsLoop env n (inWord env s k i)).2) := by
  have hnext : (inWord env s k (i + 1)).nleft - 1 = 4 * k + i := by
    simp only [inWord]
    omega
  rw [fpgaWordsLoop, if_pos (by omega)]
  simp only [hnext]
  rw [if_neg (by omega)]
  have hcases : i = 0 ∨ i = 1 ∨ i = 2 := by omega
  rcases hcases with rfl | rfl | rfl
  · rw [if_neg (by omega), if_neg (by omega)]
    rfl
  · rw [if_neg (by omega), if_pos (by omega)]
    rfl
  · rw [if_pos (by omega)]
    rfl

include hleft

/-- Room for the whole word. -/
theorem fpgaWordsLoop_word :
    fpgaWordsLoop env 4 s = (inWord env s k 0, be32 (env.load32 s.ptr).toNat) := by
  rw [← wordBytes_eq, fpgaWordsLoop_first env hleft, fpgaWordsLoop_next env (i := 2) (by decide),
    fpgaWordsLoop_next env (i := 1) (by decide), fpgaWordsLoop_next env (i := 0) (by decide)]
  rfl

/-- Room for `n` of its bytes. -/
theorem fpgaWordsLoop_part : ∀ {n : Nat}, n < 4 →
    (fpgaWordsLoop env n s).2 = (be32 (env.load32 s.ptr).toNat).take n ∧
      (fpgaWordsLoop env n s).1.bus = s.bus ++ if n = 0 then [] else [.read s.ptr]
  | 0, _ => by simp [fpgaWordsLoop]
  | 1, _ => by
    rw [← wordBytes_eq, fpgaWordsLoop_first env hleft]
    exact ⟨rfl, rfl⟩
  | 2, _ => by
    rw [← wordBytes_eq, fpgaWordsLoop_first env hleft, fpgaWordsLoop_next env (i := 2) (by decide)]
    exact ⟨rfl, rfl⟩
  | 3, _ => by
    rw [← wordBytes_eq, fpgaWordsLoop_first env hleft, fpgaWordsLoop_next env (i := 2) (by decide),
      fpgaWordsLoop_next env (i := 1) (by decide)]
    exact ⟨rfl, rfl⟩

end

theorem beBytesAt_succ (addr : UInt32) (k : Nat) :
    env.beBytesAt addr (k + 1) = be32 (env.load32 addr).toNat ++ env.beBytesAt (addr + 4) k := by
  simp [Env.beBytesAt, Env.wordsAt, wordAddrs]

/-- One call sends as much of the words as there is room for, and loads those of which it sends a
byte. -/
theorem fpgaWordsLoop_words : ∀ (k n : Nat) {s : Tapcp}, s.nleft = 4 * k →
    (fpgaWordsLoop env n s).2 = (env.beBytesAt s.ptr k).take n ∧
      (fpgaWordsLoop env n s).1.bus =
        s.bus ++ ((wordAddrs s.ptr k).take ((n + 3) / 4)).map .read
  | 0, n, s, hleft => by
    rw [fpgaWordsLoop_done env (by omega)]
    simp [Env.beBytesAt, Env.wordsAt, wordAddrs]
  | k + 1, n, s, hleft => by
    rw [beBytesAt_succ, wordAddrs]
    rcases Nat.lt_or_ge n 4 with hn | hn
    · -- the call ends inside the word
      obtain ⟨hbytes, hbus⟩ := fpgaWordsLoop_part env hleft hn
      refine ⟨?_, ?_⟩
      · rw [hbytes, List.take_append_of_le_length (by rw [length_be32]; omega)]
      · rw [hbus]
        rcases Nat.eq_zero_or_pos n with rfl | hpos
        · simp
        · rw [if_neg (by omega), show (n + 3) / 4 = 1 by omega]
          simp
    · obtain ⟨m, rfl⟩ := Nat.exists_eq_add_of_le hn
      obtain ⟨hbytes, hbus⟩ := fpgaWordsLoop_words k m (s := inWord env s k 0) (Int.add_zero _)
      rw [fpgaWordsLoop_add, fpgaWordsLoop_word env hleft]
      refine ⟨?_, ?_⟩
      · rw [List.take_append, length_be32, Nat.add_sub_cancel_left,
          List.take_of_length_le (l := be32 _) (by rw [length_be32]; omega)]
        exact congrArg (be32 (env.load32 s.ptr).toNat ++ ·) hbytes
      · rw [hbus,
          show (4 + m + 3) / 4 = (m + 3) / 4 + 1 by omega, List.take_succ_cons, List.map_cons]
        simp [inWord]

/-! ## All calls -/

theorem length_beBytesAt : ∀ (addr : UInt32) (k : Nat), (env.beBytesAt addr k).length = 4 * k
  | _, 0 => rfl
  | addr, k + 1 => by
    rw [beBytesAt_succ, List.length_append, length_be32, length_beBytesAt]
    omega

/-- The words of a read that does not wrap around are different words. -/
theorem nodup_wordAddrs : ∀ {k : Nat}, 4 * k ≤ 2 ^ 32 → ∀ addr, (wordAddrs addr k).Nodup
  | 0, _, _ => List.nodup_nil
  | k + 1, hk, addr => by
    rw [wordAddrs, List.nodup_cons]
    refine ⟨fun hmem => ?_, nodup_wordAddrs (by omega) _⟩
    obtain ⟨i, hi, heq⟩ := mem_wordAddrs.mp hmem
    have hnat := congrArg UInt32.toNat heq
    have := addr.toNat_lt
    simp only [UInt32.toNat_add, UInt32.toNat_mul, UInt32.toNat_ofNat', UInt32.reduceToNat] at hnat
    omega

/--
**Binary reads in calls of any sizes return the big-endian bytes of the words, and read each word
once.**  Calls that do not have room for all of it return the front part, and have read the words
they have begun to send.
-/
theorem readCalls_words {s : Tapcp} {k : Nat} (hk : 4 * k < 2 ^ 31) (hleft : s.nleft = 4 * k)
    (sizes : List Nat) :
    let (s', outs) := readCalls env sizes s
    (∀ out ∈ outs, out.ret = out.buf.length) ∧
      outs.flatMap ReadOut.buf = (env.beBytesAt s.ptr k).take sizes.sum ∧
      s'.bus = s.bus ++ ((wordAddrs s.ptr k).take ((sizes.sum + 3) / 4)).map .read ∧
      (wordAddrs s.ptr k).Nodup ∧
      (4 * k ≤ sizes.sum →
        outs.flatMap ReadOut.buf = env.beBytesAt s.ptr k ∧
          s'.bus = s.bus ++ (wordAddrs s.ptr k).map .read) := by
  obtain ⟨hstate, hout⟩ := readCalls_eq_loop env sizes s
  obtain ⟨hbytes, hbus⟩ := fpgaWordsLoop_words env k sizes.sum hleft
  rw [← hout] at hbytes
  rw [← hstate] at hbus
  refine ⟨readCalls_ret env sizes s, hbytes, hbus, nodup_wordAddrs (by omega) _, ?_⟩
  intro hsum
  have hall : (env.beBytesAt s.ptr k).take sizes.sum = env.beBytesAt s.ptr k :=
    List.take_of_length_le (by rw [length_beBytesAt]; exact hsum)
  have hreads : (wordAddrs s.ptr k).take ((sizes.sum + 3) / 4) = wordAddrs s.ptr k :=
    List.take_of_length_le (by rw [length_wordAddrs]; omega)
  exact ⟨hbytes.trans hall, hbus.trans (by rw [hreads])⟩

/-- Two words in calls of three, four and three bytes. -/
theorem readCalls_words_twoWords :
    let env : Env := { Env.zero with load32 := fun addr => addr + 0x01020304 }
    let (s', outs) := readCalls env [3, 4, 3] { Tapcp.zero with nleft := 8, readWord := 0xffffffff }
    outs.map ReadOut.buf = [[1, 2, 3], [4, 1, 2, 3], [8]] ∧
      outs.flatMap ReadOut.buf = [1, 2, 3, 4, 1, 2, 3, 8] ∧ s'.bus = [.read 0, .read 4] := by
  refine ⟨by decide, ?_⟩
  exact (readCalls_words { Env.zero with load32 := fun addr => addr + 0x01020304 } (k := 2)
    (s := { Tapcp.zero with nleft := 8, readWord := 0xffffffff }) (by decide) rfl
    [3, 4, 3]).2.2.2.2 (by decide)

end MlibDevel.Jam
