import MlibDevel.Jam.HexText
import MlibDevel.Jam.TapcpOpen

/-!
# Binary writes

A binary write stores the words of a stream: every four bytes are a word, the first byte its most
significant one, and of the stream counts what the number of bytes left allows.

The callback keeps the bytes of an unfinished word in a static variable, across buffers and calls,
and never clears it.  `Stored` says what it holds between two bytes; `Offered` what a file has taken
of the bytes sent so far.  How the stream is cut into calls and chains then only decides which call
fails (`binaryReturns_eq`).
-/

namespace MlibDevel.Jam

open Lib

/-! ## The words of a stream -/

/-- A word, most significant byte first. -/
def beWord (a b c d : UInt8) : UInt32 :=
  a.toUInt32 <<< 24 ||| b.toUInt32 <<< 16 ||| c.toUInt32 <<< 8 ||| d.toUInt32

/-- The whole words of a stream; up to three bytes at its end are left out. -/
def beWords : List UInt8 → List UInt32
  | a :: b :: c :: d :: data => beWord a b c d :: beWords data
  | _ => []

example : beWords [0xde, 0xad, 0xbe, 0xef, 0, 0, 0, 1, 2] = [0xdeadbeef, 1] := by decide

/-- The bytes of a stream that a count of bytes left allows.  A negative count is no limit. -/
def allowed (nleft : Int) (data : List UInt8) : List UInt8 :=
  if nleft < 0 then data else data.take nleft.toNat

/-- After `sent` the bytes `cs` hold one beyond the limit. -/
def Beyond (nleft : Int) (sent cs : List UInt8) : Prop :=
  cs ≠ [] ∧ 0 ≤ nleft ∧ nleft < (sent ++ cs).length

instance decidableBeyond (nleft : Int) (sent cs : List UInt8) : Decidable (Beyond nleft sent cs) :=
  inferInstanceAs (Decidable (_ ∧ _ ∧ _))

/-- Whole words in front of a stream. -/
theorem beWords_append : ∀ {xs : List UInt8} (ys : List UInt8), xs.length % 4 = 0 →
    beWords (xs ++ ys) = beWords xs ++ beWords ys
  | [], _, _ => rfl
  | [_], _, h => by simp at h
  | [_, _], _, h => by simp at h
  | [_, _, _], _, h => by simp at h
  | a :: b :: c :: d :: xs, ys, h => by
    have hxs : xs.length % 4 = 0 := by
      simp only [List.length_cons] at h
      omega
    show beWord a b c d :: beWords (xs ++ ys) = beWord a b c d :: beWords xs ++ beWords ys
    rw [beWords_append ys hxs, List.cons_append]

/-- Less than four bytes are no word. -/
theorem beWords_of_length_lt : ∀ {xs : List UInt8}, xs.length < 4 → beWords xs = []
  | [], _ => rfl
  | [_], _ => rfl
  | [_, _], _ => rfl
  | [_, _, _], _ => rfl
  | _ :: _ :: _ :: _ :: xs, h => by
    simp only [List.length_cons] at h
    omega

/-- Nothing is beyond the limit. -/
theorem allowed_of_le {nleft : Int} {data : List UInt8} (h : nleft < 0 ∨ data.length ≤ nleft) :
    allowed nleft data = data := by
  rw [allowed]
  split
  · rfl
  · exact List.take_of_length_le (by omega)

/-- Bytes beyond the limit do not count. -/
theorem allowed_append {nleft : Int} {data : List UInt8} (h₀ : 0 ≤ nleft) (h : nleft ≤ data.length)
    (cs : List UInt8) : allowed nleft (data ++ cs) = allowed nleft data := by
  rw [allowed, allowed, if_neg (by omega), if_neg (by omega),
    List.take_append_of_le_length (by omega)]

/-- A byte within the limit is not beyond it. -/
theorem beyond_cons {nleft : Int} {sent : List UInt8} {c : UInt8}
    (h : nleft < 0 ∨ (sent ++ [c]).length ≤ nleft) (cs : List UInt8) :
    Beyond nleft (sent ++ [c]) cs ↔ Beyond nleft sent (c :: cs) := by
  rw [Beyond, Beyond, ← List.append_cons]
  constructor
  · rintro ⟨-, hlimit⟩
    exact ⟨List.cons_ne_nil _ _, hlimit⟩
  · rintro ⟨-, hlimit⟩
    refine ⟨?_, hlimit⟩
    rintro rfl
    omega

/-! ## Between two bytes -/

/-- Shift a byte into the static word. -/
def shiftIn (w : UInt32) (c : UInt8) : UInt32 := (w <<< 8) ||| c.toUInt32

/-- A positive count of bytes left goes down. -/
def countDown (nleft : Int) : Int := if nleft > 0 then nleft - 1 else nleft

section

variable {s : Tapcp} (hleft : s.nleft ≠ 0) (c : UInt8)

include hleft

/-- A byte that completes a word. -/
theorem writeFpgaByte_word (h : (s.u32 + 1).toNat % 4 = 0) :
    writeFpgaByte c s = .next { s with
      writeWord := shiftIn s.writeWord c
      u32 := s.u32 + 1
      ptr := s.ptr + 4
      bus := s.bus ++ [.write s.ptr (shiftIn s.writeWord c)]
      nleft := countDown s.nleft } := by
  rw [writeFpgaByte, if_neg hleft, countDown]
  dsimp only
  rw [if_pos h]
  split <;> rfl

/-- A byte that does not. -/
theorem writeFpgaByte_part (h : (s.u32 + 1).toNat % 4 ≠ 0) :
    writeFpgaByte c s = .next { s with
      writeWord := shiftIn s.writeWord c
      u32 := s.u32 + 1
      nleft := countDown s.nleft } := by
  rw [writeFpgaByte, if_neg hleft, countDown]
  dsimp only
  rw [if_neg h]
  split <;> rfl

end

/--
Since the file was opened in the state `s₀` the callback has taken the whole words `full` and then
the bytes `part` of the next word.
-/
structure Stored (s₀ : Tapcp) (full part : List UInt8) (s : Tapcp) : Prop where
  full_mod : full.length % 4 = 0
  part_lt : part.length < 4
  within : s₀.nleft < 0 ∨ (full ++ part).length ≤ s₀.nleft
  nleft : s.nleft = if s₀.nleft < 0 then s₀.nleft else s₀.nleft - (full ++ part).length
  u32 : s.u32 = UInt32.ofNat (full ++ part).length
  word : ∃ w, s.writeWord = part.foldl shiftIn w
  ptr : s.ptr = s₀.ptr + 4 * UInt32.ofNat (beWords full).length
  bus : s.bus = s₀.bus ++ wordWrites s₀.ptr (beWords full)
  writeFn : s.writeFn = .fpgaWordsBinary

namespace Stored

variable {s₀ s : Tapcp} {full part : List UInt8}

theorem beWords_eq (h : Stored s₀ full part s) : beWords (full ++ part) = beWords full := by
  rw [beWords_append part h.full_mod, beWords_of_length_lt h.part_lt, List.append_nil]

/-- `nleft` is zero as soon as the limit is reached. -/
theorem nleft_eq_zero_iff (h : Stored s₀ full part s) :
    s.nleft = 0 ↔ 0 ≤ s₀.nleft ∧ s₀.nleft ≤ (full ++ part).length := by
  have hw := h.within
  rw [h.nleft]
  split <;> omega

/-- The count of bytes tells when a word is full. -/
theorem u32_mod (h : Stored s₀ full part s) :
    (s.u32 + 1).toNat % 4 = 0 ↔ part.length = 3 := by
  have hf := h.full_mod
  have hp := h.part_lt
  rw [h.u32, UInt32.toNat_add, UInt32.toNat_ofNat', List.length_append]
  show (_ % 2 ^ 32 + 1) % 2 ^ 32 % 4 = 0 ↔ _
  omega

/-- A byte counts down the bytes left. -/
theorem countDown_nleft (h : Stored s₀ full part s) (hleft : s.nleft ≠ 0) {data : List UInt8}
    (hdata : data.length = (full ++ part).length + 1) :
    (s₀.nleft < 0 ∨ data.length ≤ s₀.nleft) ∧
      countDown s.nleft = if s₀.nleft < 0 then s₀.nleft else s₀.nleft - data.length := by
  have hroom := mt h.nleft_eq_zero_iff.mpr hleft
  have hw := h.within
  rw [countDown, h.nleft, hdata]
  split <;> split <;> omega

theorem u32_add (h : Stored s₀ full part s) {data : List UInt8}
    (hdata : data.length = (full ++ part).length + 1) : s.u32 + 1 = UInt32.ofNat data.length := by
  rw [h.u32, hdata, UInt32.ofNat_add]
  rfl

/-- The bytes of the unfinished word with one more. -/
theorem shiftIn_word (h : Stored s₀ full part s) (c : UInt8) :
    ∃ w, shiftIn s.writeWord c = (part ++ [c]).foldl shiftIn w := by
  obtain ⟨w, hw⟩ := h.word
  refine ⟨w, ?_⟩
  rw [List.foldl_append, ← hw]
  rfl

/-- **A byte is taken** while the limit is not reached. -/
theorem byte (h : Stored s₀ full part s) (hleft : s.nleft ≠ 0) (c : UInt8) :
    ∃ full' part' s', writeFpgaByte c s = .next s' ∧ full' ++ part' = full ++ part ++ [c] ∧
      Stored s₀ full' part' s' := by
  obtain ⟨w, hw⟩ := h.shiftIn_word c
  by_cases h3 : part.length = 3
  · -- the byte completes a word, and what was in `word` before it began is shifted out
    obtain ⟨x, y, z, hxyz⟩ := List.length_eq_three.mp h3
    have hword : shiftIn s.writeWord c = beWord x y z c := by
      rw [hw, hxyz]
      exact shift_four_bytes w x y z c
    have hwords : beWords (full ++ part ++ [c]) = beWords full ++ [beWord x y z c] := by
      rw [List.append_assoc, beWords_append _ h.full_mod, hxyz]
      rfl
    have hlen : (full ++ part ++ [c] ++ []).length = (full ++ part).length + 1 := by
      rw [List.append_nil, List.length_append, List.length_singleton]
    obtain ⟨hwithin, hdown⟩ := h.countDown_nleft hleft hlen
    refine ⟨full ++ part ++ [c], [], _, writeFpgaByte_word hleft c (h.u32_mod.mpr h3),
      List.append_nil _, ?_⟩
    constructor
    case full_mod =>
      have := h.full_mod
      simp only [List.length_append, List.length_singleton]
      omega
    case part_lt => exact Nat.zero_lt_succ 3
    case within => exact hwithin
    case nleft => exact hdown
    case u32 => exact h.u32_add hlen
    case word => exact ⟨_, rfl⟩
    case ptr =>
      rw [hwords, List.length_append, UInt32.ofNat_add, UInt32.mul_add, ← UInt32.add_assoc, ← h.ptr]
      rfl
    case bus =>
      rw [hwords, wordWrites_append, ← List.append_assoc, ← h.bus, ← h.ptr, ← hword]
      rfl
    case writeFn => exact h.writeFn
  · -- the word goes on
    have hlen : (full ++ (part ++ [c])).length = (full ++ part).length + 1 := by
      rw [← List.append_assoc, List.length_append, List.length_singleton]
    obtain ⟨hwithin, hdown⟩ := h.countDown_nleft hleft hlen
    refine ⟨full, part ++ [c], _, writeFpgaByte_part hleft c (mt h.u32_mod.mp h3),
      (List.append_assoc _ _ _).symm, ?_⟩
    constructor
    case full_mod => exact h.full_mod
    case part_lt =>
      have := h.part_lt
      rw [List.length_append, List.length_singleton]
      omega
    case within => exact hwithin
    case nleft => exact hdown
    case u32 => exact h.u32_add hlen
    case word => exact ⟨w, hw⟩
    case ptr => exact h.ptr
    case bus => exact h.bus
    case writeFn => exact h.writeFn

end Stored

/-! ## Over a transfer -/

/-- Since the file was opened in the state `s₀` the bytes `sent` have been handed over. -/
def Offered (s₀ : Tapcp) (sent : List UInt8) (s : Tapcp) : Prop :=
  ∃ full part, full ++ part = allowed s₀.nleft sent ∧ Stored s₀ full part s

namespace Offered

variable {s₀ s : Tapcp} {sent : List UInt8}

/-- What has been written are the words of the bytes that are allowed. -/
theorem bus (h : Offered s₀ sent s) :
    s.bus = s₀.bus ++ wordWrites s₀.ptr (beWords (allowed s₀.nleft sent)) := by
  obtain ⟨full, part, hdata, hstored⟩ := h
  rw [← hdata, hstored.beWords_eq, hstored.bus]

theorem writeFn (h : Offered s₀ sent s) : s.writeFn = .fpgaWordsBinary := by
  obtain ⟨full, part, hdata, hstored⟩ := h
  exact hstored.writeFn

/-- At the limit a byte is refused. -/
theorem refused (h : Offered s₀ sent s) (hleft : s.nleft = 0) (cs : List UInt8) :
    0 ≤ s₀.nleft ∧ s₀.nleft ≤ sent.length ∧ Offered s₀ (sent ++ cs) s := by
  obtain ⟨full, part, hdata, hstored⟩ := h
  obtain ⟨hpos, hle⟩ := hstored.nleft_eq_zero_iff.mp hleft
  have hsent : s₀.nleft ≤ sent.length := by
    rw [hdata, allowed, if_neg (by omega), List.length_take] at hle
    omega
  exact ⟨hpos, hsent, full, part, hdata.trans (allowed_append hpos hsent cs).symm, hstored⟩

/-- Before the limit a byte is taken. -/
theorem taken (h : Offered s₀ sent s) (hleft : s.nleft ≠ 0) (c : UInt8) :
    ∃ s', writeFpgaByte c s = .next s' ∧ Offered s₀ (sent ++ [c]) s' ∧
      (s₀.nleft < 0 ∨ (sent ++ [c]).length ≤ s₀.nleft) := by
  obtain ⟨full, part, hdata, hstored⟩ := h
  have hroom := mt hstored.nleft_eq_zero_iff.mpr hleft
  have hall : allowed s₀.nleft sent = sent := by
    apply allowed_of_le
    rw [hdata, allowed] at hroom
    split at hroom
    · omega
    · rw [List.length_take] at hroom
      omega
  obtain ⟨full', part', s', hnext, hdata', hstored'⟩ := hstored.byte hleft c
  have hsent : full' ++ part' = sent ++ [c] := by rw [hdata', hdata, hall]
  have hwithin := hstored'.within
  rw [hsent] at hwithin
  exact ⟨s', hnext, ⟨full', part', hsent.trans (allowed_of_le hwithin).symm, hstored'⟩, hwithin⟩

/-- **Byte after byte**: the call fails at the first byte beyond the limit. -/
theorem bytes : ∀ (cs : List UInt8) {sent : List UInt8} {s : Tapcp}, Offered s₀ sent s →
    ∃ s', eachByte writeFpgaByte cs s =
        (if Beyond s₀.nleft sent cs then .error s' else .next s') ∧ Offered s₀ (sent ++ cs) s'
  | [], sent, s, h => by
    refine ⟨s, ?_, ?_⟩
    · rw [if_neg fun hb => hb.1 rfl]
      rfl
    · rwa [List.append_nil]
  | c :: cs, sent, s, h => by
    by_cases hleft : s.nleft = 0
    · obtain ⟨hpos, hle, hrest⟩ := h.refused hleft (c :: cs)
      refine ⟨s, ?_, hrest⟩
      have hbeyond : Beyond s₀.nleft sent (c :: cs) := by
        refine ⟨List.cons_ne_nil _ _, hpos, ?_⟩
        rw [List.length_append, List.length_cons]
        omega
      rw [if_pos hbeyond, eachByte, writeFpgaByte, if_pos hleft]
    · obtain ⟨s₁, hnext, h₁, hwithin⟩ := h.taken hleft c
      obtain ⟨s', hrun, h'⟩ := bytes cs h₁
      have hiff := beyond_cons hwithin cs
      refine ⟨s', ?_, ?_⟩
      · rw [eachByte, hnext]
        dsimp only
        rw [hrun]
        simp only [hiff]
      · rwa [List.append_cons]

/-- A call of the callback. -/
theorem call (env : Env) (h : Offered s₀ sent s) (pbuf : Pbuf) :
    ∃ s', callWrite env s pbuf = .ret s' (if Beyond s₀.nleft sent pbuf.flatten then -1 else 0) ∧
      Offered s₀ (sent ++ pbuf.flatten) s' := by
  obtain ⟨s', hrun, h'⟩ := bytes pbuf.flatten h
  refine ⟨s', ?_, h'⟩
  rw [callWrite, h.writeFn]
  dsimp only
  rw [writeFpgaWordsBinary, walkPbuf_flatten, hrun]
  split <;> rfl

end Offered

/-- What the calls return: -1 in every one that holds a byte beyond the limit. -/
def binaryReturns (nleft : Int) : List UInt8 → List Pbuf → List Int
  | _, [] => []
  | sent, pbuf :: pbufs =>
    (if Beyond nleft sent pbuf.flatten then -1 else 0) ::
      binaryReturns nleft (sent ++ pbuf.flatten) pbufs

/-- What a call returns depends on the bytes before it and on its own. -/
theorem binaryReturns_eq (nleft : Int) : ∀ (pbufs : List Pbuf) (sent : List UInt8),
    binaryReturns nleft sent pbufs = pbufs.mapIdx fun k pbuf =>
      if Beyond nleft (sent ++ sentBytes (pbufs.take k)) pbuf.flatten then -1 else 0
  | [], _ => rfl
  | pbuf :: pbufs, sent => by
    rw [binaryReturns, List.mapIdx_cons, binaryReturns_eq nleft pbufs]
    simp [sentBytes]

theorem Offered.calls (env : Env) {s₀ : Tapcp} : ∀ (pbufs : List Pbuf) {sent : List UInt8}
    {s : Tapcp}, Offered s₀ sent s →
    ∃ s', callWrites env pbufs s = some (s', binaryReturns s₀.nleft sent pbufs) ∧
      Offered s₀ (sent ++ sentBytes pbufs) s'
  | [], sent, s, h => by
    refine ⟨s, rfl, ?_⟩
    rwa [sentBytes, List.map_nil, List.flatten_nil, List.append_nil]
  | pbuf :: pbufs, sent, s, h => by
    obtain ⟨s₁, hcall, h₁⟩ := h.call env pbuf
    obtain ⟨s', hcalls, h'⟩ := Offered.calls env pbufs h₁
    refine ⟨s', ?_, ?_⟩
    · rw [callWrites, hcall]
      dsimp only
      rw [hcalls]
      rfl
    · rwa [sentBytes, List.map_cons, List.flatten_cons, ← List.append_assoc]

/-- A file just opened for a binary write has taken nothing. -/
theorem openWords_offered {s : Tapcp} (hwrite : s.write = true) (hbinary : s.binary = true) :
    Offered s [] (openWords s) := by
  have hopen : openWords s = { s with u32 := 0, writeFn := .fpgaWordsBinary } := by
    rw [openWords, hwrite, hbinary]
    rfl
  rw [hopen]
  refine ⟨[], [], by rw [allowed]; split <;> simp, ?_⟩
  constructor
  case full_mod => rfl
  case part_lt => exact Nat.zero_lt_succ 3
  case within =>
    rw [List.append_nil, List.length_nil]
    omega
  case nleft =>
    rw [List.append_nil, List.length_nil]
    split
    · rfl
    · exact (Int.sub_zero _).symm
  case u32 => rfl
  case word => exact ⟨_, rfl⟩
  case ptr => exact (UInt32.add_zero _).symm
  case bus => exact (List.append_nil _).symm
  case writeFn => rfl

/--
**A binary write stores the whole words of what is allowed of the stream**, however the stream is
cut, and a call fails exactly when it holds a byte beyond the limit.
-/
theorem callWrites_binary (env : Env) {s : Tapcp} (hwrite : s.write = true)
    (hbinary : s.binary = true) (pbufs : List Pbuf) :
    ∃ s', callWrites env pbufs (openWords s) = some (s', pbufs.mapIdx fun k pbuf =>
        if Beyond s.nleft (sentBytes (pbufs.take k)) pbuf.flatten then -1 else 0) ∧
      s'.bus = s.bus ++ wordWrites s.ptr (beWords (allowed s.nleft (sentBytes pbufs))) := by
  obtain ⟨s', hcalls, h⟩ := (openWords_offered hwrite hbinary).calls env pbufs
  refine ⟨s', ?_, h.bus⟩
  rw [hcalls, binaryReturns_eq]
  rfl

/-- Five bytes in three calls, with a limit of five and one byte too many. -/
theorem callWrites_binary_sixBytes : ∃ s',
    callWrites Env.zero [[[1], [2, 3]], [[], [4, 5]], [[6]]]
      (openWords { Tapcp.zero with write := true, binary := true, nleft := 5 }) =
        some (s', [0, 0, -1]) ∧
      s'.bus = [.write 0 0x01020304] :=
  callWrites_binary Env.zero (s := { Tapcp.zero with write := true, binary := true, nleft := 5 })
    rfl rfl [[[1], [2, 3]], [[], [4, 5]], [[6]]]

end MlibDevel.Jam
