import MlibDevel.Jam.LineReader

/-!
# Hex dumps

`dumpLines` is the dump of some data as text: an eight digit label, a colon and so many items to a
line.  The two callbacks that send dumps have it as their source of lines, so what a client gets is
the whole dump if and only if no block starts inside the last line (`fpgaDump_complete_iff`,
`memDump_complete_iff`).
-/

namespace MlibDevel.Jam

open Lib

/-! ## The text -/

section

variable {β : Type}

/-- The dump of some items, `k` to a line, each line with a label. -/
def dumpLines (k : Nat) (text : List β → List UInt8) (label : UInt32) :
    List β → List (List UInt8)
  | [] => []
  | x :: xs =>
    (dumpLabel label ++ text (x :: xs.take (k - 1)) ++ [newline]) ::
      dumpLines k text (label + 16) (xs.drop (k - 1))
termination_by xs => xs.length
decreasing_by
  rw [List.length_drop, List.length_cons]
  omega

theorem dumpLines_eq_nil {k : Nat} {text : List β → List UInt8} {label : UInt32} {xs : List β} :
    dumpLines k text label xs = [] ↔ xs = [] := by
  cases xs with
  | nil => simp [dumpLines]
  | cons x xs => simp [dumpLines]

end

/-- Words of eight digits, separated by spaces. -/
def wordText : List UInt32 → List UInt8
  | [] => []
  | w :: ws => u32ToHex w 1 ++ ws.flatMap fun w => 0x20 :: u32ToHex w 1

/-- A byte of a line and its place there: two digits, and a space after the first three groups. -/
def byteField (b : UInt8 × Nat) : List UInt8 :=
  u8ToHex b.1 0x11 ++ if b.2 % 4 = 3 ∧ b.2 ≠ 15 then [0x20] else []

/-- Bytes of two digits in groups of four. -/
def byteText (bs : List UInt8) : List UInt8 := bs.zipIdx.flatMap byteField

variable (env : Env)

/-- The addresses of `n` words. -/
def wordAddrs (addr : UInt32) : Nat → List UInt32
  | 0 => []
  | n + 1 => addr :: wordAddrs (addr + 4) n

/-- `n` FPGA words from an address on. -/
def Env.wordsAt (addr : UInt32) (n : Nat) : List UInt32 := (wordAddrs addr n).map env.load32

/-- `n` bytes from an address on, each the low byte of the word read there. -/
def Env.lowBytesAt (addr : UInt32) : Nat → List UInt8
  | 0 => []
  | n + 1 => (env.load32 addr).toUInt8 :: Env.lowBytesAt (addr + 1) n

/-- The complete dump of `n` FPGA words. -/
def fpgaDump (label addr : UInt32) (n : Nat) : List (List UInt8) :=
  dumpLines 4 wordText label (env.wordsAt addr n)

/-- The complete dump of `n` bytes. -/
def memDump (label addr : UInt32) (n : Nat) : List (List UInt8) :=
  dumpLines 16 byteText label (env.lowBytesAt addr n)

/-! ## What a line is made of -/

/-- The characters of a dump line: digits, colons and spaces. -/
def dumpChar (c : UInt8) : Bool := isxdigit c || c = colon || c = 0x20

theorem dumpChar_ne_newline {c : UInt8} (h : dumpChar c = true) : c ≠ newline := by
  rintro rfl
  exact absurd h (by decide)

theorem dumpChar_of_isxdigit {c : UInt8} (h : isxdigit c = true) : dumpChar c = true := by
  simp [dumpChar, h]

theorem dumpLabel_spec (label : UInt32) :
    (dumpLabel label).length = 10 ∧ ∀ c ∈ dumpLabel label, dumpChar c = true := by
  obtain ⟨hlen, hdig⟩ := u32ToHex_zeros label
  constructor
  · rw [dumpLabel, List.length_append, hlen]
    rfl
  · intro c hc
    rw [dumpLabel, List.mem_append] at hc
    rcases hc with hc | hc
    · exact dumpChar_of_isxdigit (hdig c hc)
    · simp only [List.mem_cons, List.not_mem_nil, or_false] at hc
      rcases hc with rfl | rfl <;> decide

theorem wordText_spec (ws : List UInt32) :
    (wordText ws).length ≤ 9 * ws.length ∧ ∀ c ∈ wordText ws, dumpChar c = true := by
  have htail : ∀ ws : List UInt32,
      (ws.flatMap fun w => 0x20 :: u32ToHex w 1).length = 9 * ws.length ∧
      ∀ c ∈ ws.flatMap fun w => 0x20 :: u32ToHex w 1, dumpChar c = true := by
    intro ws
    constructor
    · induction ws with
      | nil => rfl
      | cons w ws ih =>
        rw [List.flatMap_cons, List.length_append, ih, List.length_cons, (u32ToHex_zeros w).1,
          List.length_cons]
        omega
    · intro c hc
      obtain ⟨w, -, hw⟩ := List.mem_flatMap.mp hc
      rcases List.mem_cons.mp hw with rfl | hw
      · decide
      · exact dumpChar_of_isxdigit ((u32ToHex_zeros w).2 c hw)
  cases ws with
  | nil => simp [wordText]
  | cons w ws =>
    constructor
    · rw [wordText, List.length_append, (htail ws).1, (u32ToHex_zeros w).1, List.length_cons]
      omega
    · intro c hc
      rw [wordText, List.mem_append] at hc
      rcases hc with hc | hc
      · exact dumpChar_of_isxdigit ((u32ToHex_zeros w).2 c hc)
      · exact (htail ws).2 c hc

theorem byteField_spec (b : UInt8 × Nat) :
    (byteField b).length ≤ 3 ∧ ∀ c ∈ byteField b, dumpChar c = true := by
  obtain ⟨hlen, hdig⟩ := u8ToHex_zeros b.1
  unfold byteField
  split
  · constructor
    · rw [List.length_append, hlen, List.length_singleton]
    · intro c hc
      rcases List.mem_append.mp hc with hc | hc
      · exact dumpChar_of_isxdigit (hdig c hc)
      · rw [List.mem_singleton.mp hc]
        decide
  · rw [List.append_nil]
    exact ⟨by omega, fun c hc => dumpChar_of_isxdigit (hdig c hc)⟩

theorem byteText_spec (bs : List UInt8) :
    (byteText bs).length ≤ 3 * bs.length ∧ ∀ c ∈ byteText bs, dumpChar c = true := by
  constructor
  · have hlen : ∀ (bs : List UInt8) (i : Nat),
        ((bs.zipIdx i).flatMap byteField).length ≤ 3 * bs.length := by
      intro bs
      induction bs with
      | nil => simp
      | cons b bs ih =>
        intro i
        have hb := (byteField_spec (b, i)).1
        have := ih (i + 1)
        rw [List.zipIdx_cons, List.flatMap_cons, List.length_append, List.length_cons]
        omega
    exact hlen bs 0
  · intro c hc
    obtain ⟨b, -, hb⟩ := List.mem_flatMap.mp hc
    exact (byteField_spec b).2 c hb

/-- Every line of a dump is a line. -/
theorem dumpLines_isLine {β : Type} {k : Nat} {text : List β → List UInt8}
    (htext : ∀ xs, ∀ c ∈ text xs, dumpChar c = true) (label : UInt32) (xs : List β) :
    ∀ l ∈ dumpLines k text label xs, IsLine l := by
  induction label, xs using dumpLines.induct k with
  | case1 label =>
    intro l hl
    simp [dumpLines] at hl
  | case2 label x xs ih =>
    intro l hl
    rw [dumpLines] at hl
    rcases List.mem_cons.mp hl with rfl | hl
    · refine ⟨dumpLabel label ++ text (x :: xs.take (k - 1)), ?_, rfl⟩
      intro hm
      rcases List.mem_append.mp hm with hm | hm
      · exact dumpChar_ne_newline ((dumpLabel_spec label).2 _ hm) rfl
      · exact dumpChar_ne_newline (htext _ _ hm) rfl
    · exact ih l hl

/-- A new line as the callbacks build it. -/
theorem dumpNewLine_spec {data : Tapcp → Tapcp × List UInt8} {s s' : Tapcp} {text : List UInt8}
    (hdata : data { s with u32 := s.u32 + 16 } = (s', text)) (hlen : text.length ≤ 64) :
    ∃ lineBuf rest, dumpNewLine data s = some ({ s' with lineBuf }, true) ∧
      lineBuf.bytes = dumpLabel s.u32 ++ text ++ [newline] ++ rest := by
  have hfit : (dumpLabel s.u32 ++ text ++ [newline]).length ≤ lineBufSize := by
    rw [List.length_append, List.length_append, (dumpLabel_spec s.u32).1, List.length_singleton]
    unfold lineBufSize
    omega
  rw [dumpNewLine, hdata]
  dsimp only
  rw [LineBuf.put, dif_pos hfit]
  exact ⟨_, _, rfl, rfl⟩

/-! ## The FPGA words of a line -/

/-- Multiples of four add up. -/
theorem four_mul_succ (addr : UInt32) (m : Nat) :
    addr + 4 + 4 * UInt32.ofNat m = addr + 4 * UInt32.ofNat (m + 1) := by
  rw [UInt32.ofNat_add, UInt32.mul_add, UInt32.add_assoc, UInt32.add_comm 4]
  rfl

/-- The state after the FPGA words at the next `m` addresses have been read. -/
def readWords (s : Tapcp) (m : Nat) : Tapcp :=
  { s with
    ptr := s.ptr + 4 * UInt32.ofNat m
    nleft := s.nleft - 4 * m
    bus := s.bus ++ (wordAddrs s.ptr m).map .read }

theorem readWords_succ (s : Tapcp) (m : Nat) :
    readWords { s with ptr := s.ptr + 4, nleft := s.nleft - 4, bus := s.bus ++ [.read s.ptr] } m =
      readWords s (m + 1) := by
  simp only [readWords, wordAddrs, List.map_cons, List.append_assoc, List.singleton_append,
    Tapcp.mk.injEq, true_and, and_true]
  exact ⟨four_mul_succ _ _, by omega⟩

/-- The words of a line after the first `4 - k` of them; there are still `n` words to read. -/
theorem fpgaLineWords_spec {k n : Nat} {s : Tapcp} (hk : k ≤ 3) (hn : s.nleft = 4 * n)
    (hpos : 0 < n) :
    fpgaLineWords env k s = (readWords s (min k n),
      (env.wordsAt s.ptr (min k n)).flatMap fun w => 0x20 :: u32ToHex w 1) := by
  induction k generalizing n s with
  | zero => simp [fpgaLineWords, readWords, wordAddrs, Env.wordsAt]
  | succ k ih =>
    obtain ⟨n, rfl⟩ := Nat.exists_eq_succ_of_ne_zero (Nat.pos_iff_ne_zero.mp hpos)
    rw [fpgaLineWords, Nat.succ_min_succ, ← readWords_succ]
    dsimp only
    rw [if_pos (show 4 - (k + 1) > 0 by omega)]
    by_cases hz : n = 0
    · subst hz
      rw [if_pos (by omega)]
      simp [readWords, wordAddrs, Env.wordsAt]
    · rw [if_neg (by omega), ih (n := n) (by omega) (by dsimp only; omega) (by omega)]
      simp [Env.wordsAt, wordAddrs]

/-- The words of a line. -/
theorem fpgaLineWords_four {n : Nat} {s : Tapcp} (hn : s.nleft = 4 * (n + 1 : Nat)) :
    fpgaLineWords env 4 s =
      (readWords s (min 3 n + 1), wordText (env.wordsAt s.ptr (min 3 n + 1))) := by
  rw [fpgaLineWords, ← readWords_succ]
  dsimp only
  rw [if_neg (show ¬4 - (3 + 1) > 0 by decide)]
  by_cases hz : n = 0
  · subst hz
    rw [if_pos (by omega)]
    simp [readWords, wordAddrs, Env.wordsAt, wordText]
  · rw [if_neg (by omega),
      fpgaLineWords_spec env (n := n) (by omega) (by dsimp only; omega) (by omega)]
    simp [Env.wordsAt, wordAddrs, wordText]

theorem wordsAt_take : ∀ (k n : Nat) (addr : UInt32),
    (env.wordsAt addr n).take k = env.wordsAt addr (min k n)
  | 0, _, _ => by simp [Env.wordsAt, wordAddrs]
  | _ + 1, 0, _ => by simp [Env.wordsAt, wordAddrs]
  | k + 1, n + 1, addr => by
    have ih := wordsAt_take k n (addr + 4)
    rw [Env.wordsAt, Env.wordsAt] at ih
    rw [Env.wordsAt, Env.wordsAt, Nat.succ_min_succ, wordAddrs, wordAddrs, List.map_cons,
      List.map_cons, List.take_succ_cons, ih]

theorem wordsAt_drop : ∀ (k n : Nat) (addr : UInt32),
    (env.wordsAt addr n).drop k =
      env.wordsAt (addr + 4 * UInt32.ofNat (min k n)) (n - min k n)
  | 0, n, addr => by simp
  | _ + 1, 0, _ => by simp [Env.wordsAt, wordAddrs]
  | k + 1, n + 1, addr => by
    have ih := wordsAt_drop k n (addr + 4)
    rw [four_mul_succ, Env.wordsAt] at ih
    rw [Env.wordsAt, Nat.succ_min_succ, wordAddrs, List.map_cons, List.drop_succ_cons, ih,
      Nat.add_sub_add_right]

/-- The dump of the words not read yet. -/
def FpgaSrc (s : Tapcp) (todo : List (List UInt8)) : Prop :=
  ∃ n : Nat, s.nleft = 4 * n ∧ todo = fpgaDump env s.u32 s.ptr n

theorem fpgaDump_succ (label addr : UInt32) (n : Nat) :
    fpgaDump env label addr (n + 1) =
      (dumpLabel label ++ wordText (env.wordsAt addr (min 3 n + 1)) ++ [newline]) ::
        fpgaDump env (label + 16) (addr + 4 * UInt32.ofNat (min 3 n + 1)) (n - min 3 n) := by
  have htake := wordsAt_take env 3 n (addr + 4)
  have hdrop := wordsAt_drop env 3 n (addr + 4)
  rw [four_mul_succ] at hdrop
  rw [Env.wordsAt, Env.wordsAt] at htake
  rw [Env.wordsAt] at hdrop
  rw [fpgaDump, fpgaDump, Env.wordsAt, wordAddrs, List.map_cons, dumpLines, htake, hdrop]
  rfl

theorem length_wordAddrs : ∀ (addr : UInt32) (n : Nat), (wordAddrs addr n).length = n
  | _, 0 => rfl
  | addr, n + 1 => by rw [wordAddrs, List.length_cons, length_wordAddrs]

theorem fpgaDump_eq_nil {label addr : UInt32} {n : Nat} :
    fpgaDump env label addr n = [] ↔ n = 0 := by
  rw [fpgaDump, dumpLines_eq_nil, Env.wordsAt, List.map_eq_nil_iff, ← List.length_eq_zero_iff,
    length_wordAddrs]

/-- `casper_tapcp_read_fpga_words_ascii` sends the dump of its words. -/
theorem fpgaSource :
    LineSource (fun s => s.nleft > 0) (dumpNewLine (fpgaLineWords env 4)) (FpgaSrc env) where
  more_iff := by
    rintro s todo ⟨n, hn, rfl⟩
    rw [Ne, fpgaDump_eq_nil, decide_eq_true_iff]
    omega
  build := by
    rintro s l todo ⟨n, hn, htodo⟩ hlidx
    obtain ⟨n, rfl⟩ : ∃ m, n = m + 1 := by
      apply Nat.exists_eq_succ_of_ne_zero
      rintro rfl
      rw [(fpgaDump_eq_nil env).mpr rfl] at htodo
      cases htodo
    rw [fpgaDump_succ] at htodo
    cases htodo
    have hdata := fpgaLineWords_four env (s := { s with u32 := s.u32 + 16 }) hn
    have hlen : (wordText (env.wordsAt s.ptr (min 3 n + 1))).length ≤ 64 := by
      have := (wordText_spec (env.wordsAt s.ptr (min 3 n + 1))).1
      rw [Env.wordsAt, List.length_map, length_wordAddrs] at this
      rw [Env.wordsAt]
      omega
    obtain ⟨lineBuf, rest, hnew, hbuf⟩ := dumpNewLine_spec hdata hlen
    refine ⟨_, rest, hnew, hlidx, hbuf, n - min 3 n, ?_, rfl⟩
    show s.nleft - 4 * ((min 3 n + 1 : Nat) : Int) = _
    omega
  move := fun ⟨n, hn, htodo⟩ _ => ⟨n, hn, htodo⟩
  isLine := by
    rintro s todo ⟨n, -, rfl⟩
    exact dumpLines_isLine (fun ws => (wordText_spec ws).2) _ _

/-! ## The bytes of a line -/

/-- The state after the next `m` bytes have been read. -/
def readBytes (s : Tapcp) (m : Nat) : Tapcp :=
  { s with ptr := s.ptr + UInt32.ofNat m, nleft := s.nleft - m }

theorem one_add_ofNat (addr : UInt32) (m : Nat) :
    addr + 1 + UInt32.ofNat m = addr + UInt32.ofNat (m + 1) := by
  rw [UInt32.ofNat_add, UInt32.add_assoc, UInt32.add_comm 1]
  rfl

theorem readBytes_succ (s : Tapcp) (m : Nat) :
    readBytes { s with ptr := s.ptr + 1, nleft := s.nleft - 1 } m = readBytes s (m + 1) := by
  simp only [readBytes, Tapcp.mk.injEq, true_and, and_true]
  exact ⟨one_add_ofNat _ _, by omega⟩

/-- The bytes of a line after the first `16 - k` of them; there are still `n` bytes to read. -/
theorem memLineBytes_spec {k n : Nat} {s : Tapcp} (hk : k ≤ 16) (hn : s.nleft = n)
    (hpos : 0 < n) :
    memLineBytes env k s = (readBytes s (min k n),
      ((env.lowBytesAt s.ptr (min k n)).zipIdx (16 - k)).flatMap byteField) := by
  induction k generalizing n s with
  | zero => simp [memLineBytes, readBytes, Env.lowBytesAt]
  | succ k ih =>
    obtain ⟨n, rfl⟩ := Nat.exists_eq_succ_of_ne_zero (Nat.pos_iff_ne_zero.mp hpos)
    rw [memLineBytes, Nat.succ_min_succ, ← readBytes_succ, Env.lowBytesAt, List.zipIdx_cons,
      List.flatMap_cons]
    dsimp only
    by_cases hz : n = 0
    · subst hz
      rw [if_pos (by omega)]
      simp [readBytes, Env.lowBytesAt, byteField]
    · rw [if_neg (by omega), ih (n := n) (by omega) (by dsimp only; omega) (by omega),
        show 16 - (k + 1) + 1 = 16 - k by omega]
      rfl

theorem length_lowBytesAt : ∀ (addr : UInt32) (n : Nat), (env.lowBytesAt addr n).length = n
  | _, 0 => rfl
  | addr, n + 1 => by rw [Env.lowBytesAt, List.length_cons, length_lowBytesAt]

theorem lowBytesAt_take : ∀ (k n : Nat) (addr : UInt32),
    (env.lowBytesAt addr n).take k = env.lowBytesAt addr (min k n)
  | 0, _, _ => by simp [Env.lowBytesAt]
  | _ + 1, 0, _ => by simp [Env.lowBytesAt]
  | k + 1, n + 1, addr => by
    rw [Nat.succ_min_succ, Env.lowBytesAt, Env.lowBytesAt, List.take_succ_cons,
      lowBytesAt_take k n (addr + 1)]

theorem lowBytesAt_drop : ∀ (k n : Nat) (addr : UInt32),
    (env.lowBytesAt addr n).drop k =
      env.lowBytesAt (addr + UInt32.ofNat (min k n)) (n - min k n)
  | 0, n, addr => by simp
  | _ + 1, 0, _ => by simp [Env.lowBytesAt]
  | k + 1, n + 1, addr => by
    rw [Nat.succ_min_succ, Env.lowBytesAt, List.drop_succ_cons, lowBytesAt_drop k n (addr + 1),
      one_add_ofNat, Nat.add_sub_add_right]

theorem memDump_succ (label addr : UInt32) (n : Nat) :
    memDump env label addr (n + 1) =
      (dumpLabel label ++ byteText (env.lowBytesAt addr (min 15 n + 1)) ++ [newline]) ::
        memDump env (label + 16) (addr + UInt32.ofNat (min 15 n + 1)) (n - min 15 n) := by
  rw [memDump, memDump, Env.lowBytesAt, dumpLines, lowBytesAt_take, lowBytesAt_drop, one_add_ofNat]
  rfl

theorem memDump_eq_nil {label addr : UInt32} {n : Nat} : memDump env label addr n = [] ↔ n = 0 := by
  rw [memDump, dumpLines_eq_nil, ← List.length_eq_zero_iff, length_lowBytesAt]

/-- The dump of the bytes not read yet. -/
def MemSrc (s : Tapcp) (todo : List (List UInt8)) : Prop :=
  ∃ n : Nat, s.nleft = n ∧ todo = memDump env s.u32 s.ptr n

/-- `casper_tapcp_read_mem_bytes_ascii` sends the dump of its bytes. -/
theorem memSource :
    LineSource (fun s => s.nleft > 0) (dumpNewLine (memLineBytes env 16)) (MemSrc env) where
  more_iff := by
    rintro s todo ⟨n, hn, rfl⟩
    rw [Ne, memDump_eq_nil, decide_eq_true_iff]
    omega
  build := by
    rintro s l todo ⟨n, hn, htodo⟩ hlidx
    obtain ⟨n, rfl⟩ : ∃ m, n = m + 1 := by
      apply Nat.exists_eq_succ_of_ne_zero
      rintro rfl
      rw [(memDump_eq_nil env).mpr rfl] at htodo
      cases htodo
    rw [memDump_succ] at htodo
    cases htodo
    have hdata := memLineBytes_spec env (s := { s with u32 := s.u32 + 16 }) (Nat.le_refl 16) hn
      (Nat.succ_pos n)
    rw [Nat.succ_min_succ] at hdata
    have hlen : (byteText (env.lowBytesAt s.ptr (min 15 n + 1))).length ≤ 64 := by
      have := (byteText_spec (env.lowBytesAt s.ptr (min 15 n + 1))).1
      rw [length_lowBytesAt] at this
      omega
    obtain ⟨lineBuf, rest, hnew, hbuf⟩ := dumpNewLine_spec hdata hlen
    refine ⟨_, rest, hnew, hlidx, hbuf, n - min 15 n, ?_, rfl⟩
    show s.nleft - ((min 15 n + 1 : Nat) : Int) = _
    omega
  move := fun ⟨n, hn, htodo⟩ _ => ⟨n, hn, htodo⟩
  isLine := by
    rintro s todo ⟨n, -, rfl⟩
    exact dumpLines_isLine (fun bs => (byteText_spec bs).2) _ _

/-! ## Complete dumps -/

/-- No block starts inside the last of some lines. -/
def LastLineUncut (b : Nat → Nat) (lines : List (List UInt8)) : Prop :=
  ∀ j, ¬(lastStart lines < blockStart b j ∧ blockStart b j < lines.flatten.length)

theorem cutsBefore_zero_iff {b : Nat → Nat} {lines : List (List UInt8)} :
    CutsBefore b 0 (lastStart lines) lines.flatten.length ↔ LastLineUncut b lines := by
  simp only [CutsBefore, LastLineUncut, Nat.zero_add]

/-- A callback that sends lines, called until a block is short. -/
theorem LineSource.drain_iff {more : Tapcp → Bool} {newLine : Tapcp → Option (Tapcp × Bool)}
    {Src : Tapcp → List (List UInt8) → Prop} (h : LineSource more newLine Src) {s : Tapcp}
    {lines : List (List UInt8)} (hlidx : s.lidx = 0) (hsrc : Src s lines) {b : Nat → Nat}
    (hb : ∀ j, 0 < b j) :
    ∃ n out, (∀ fuel ≥ n, drain (blockOf (readLinesOf more newLine)) fuel b s = some out) ∧
      (out = lines.flatten ↔ LastLineUncut b lines) := by
  obtain ⟨n, out, hdrain, hiff⟩ :=
    drain_stopsAfter (h.stopsAfter lines) hb (linesAt_zero hlidx hsrc)
  rw [List.drop_zero, cutsBefore_zero_iff] at hiff
  exact ⟨n, out, hdrain, hiff⟩

/-- A negative count makes the first block empty. -/
theorem drain_of_nleft_neg {newLine : Tapcp → Option (Tapcp × Bool)} {s : Tapcp}
    (hneg : s.nleft < 0) {b : Nat → Nat} (hb : ∀ j, 0 < b j) (fuel : Nat) :
    drain (blockOf (readLinesOf (fun s => s.nleft > 0) newLine)) (fuel + 1) b s = some [] := by
  have hstop : ¬(0 < b 0 ∧ decide (s.nleft > 0) = true) := by
    rintro ⟨-, hmore⟩
    have := of_decide_eq_true hmore
    omega
  have hread : blockOf (readLinesOf (fun s => s.nleft > 0) newLine) s (b 0) = some (s, []) := by
    rw [blockOf, readLinesOf, lineLoop, dif_neg hstop]
    rfl
  simp only [drain, hread, List.length_nil, hb 0, if_true]

/--
The two cases of a dump of `len` bytes in all: `nleft` is their number when that is a positive
`int`, and negative otherwise.
-/
theorem dump_drain_iff {newLine : Tapcp → Option (Tapcp × Bool)}
    {Src : Tapcp → List (List UInt8) → Prop} (h : LineSource (fun s => s.nleft > 0) newLine Src)
    {s : Tapcp} {len : Nat} {lines : List (List UInt8)} (hlen : len < 2 ^ 32) (hlidx : s.lidx = 0)
    (hnleft : s.nleft = toInt32 (UInt32.ofNat len)) (hsrc : s.nleft = len → Src s lines)
    (hnil : lines = [] → len = 0) (hlines : ∀ l ∈ lines, IsLine l) {b : Nat → Nat}
    (hb : ∀ j, 0 < b j) :
    ∃ n out, (∀ fuel ≥ n, drain (blockOf (readLinesOf (fun s => s.nleft > 0) newLine)) fuel b s =
        some out) ∧
      (out = lines.flatten ↔ len < 2 ^ 31 ∧ LastLineUncut b lines) := by
  have htoNat : (UInt32.ofNat len).toNat = len := UInt32.toNat_ofNat_of_lt' hlen
  rcases Nat.lt_or_ge len (2 ^ 31) with hlt | hge
  · rw [toInt32_of_lt (by rwa [htoNat]), htoNat] at hnleft
    obtain ⟨n, out, hdrain, hiff⟩ := h.drain_iff hlidx (hsrc hnleft) hb
    exact ⟨n, out, hdrain, by rw [hiff, and_iff_right hlt]⟩
  · have hneg : s.nleft < 0 := by
      rw [hnleft, toInt32_neg_iff, htoNat]
      exact hge
    refine ⟨1, [], ?_, iff_of_false ?_ (fun hlt => absurd hlt.1 (Nat.not_lt.mpr hge))⟩
    · intro fuel hfuel
      obtain ⟨fuel, rfl⟩ := Nat.exists_eq_succ_of_ne_zero (by omega : fuel ≠ 0)
      exact drain_of_nleft_neg hneg hb fuel
    · intro he
      cases lines with
      | nil =>
        have := hnil rfl
        omega
      | cons l lines =>
        have hl := isLine_ne_nil (hlines l List.mem_cons_self)
        rw [List.flatten_cons, eq_comm, List.append_eq_nil_iff] at he
        exact hl he.1

/--
**A dump is complete if and only if it is of less than 2³¹ bytes of data and no block starts inside
its last line**, for FPGA words and for bytes of memory.  `n` is the number of words or bytes that
was asked for.
-/
theorem hexDump_complete_iff (s : Tapcp) (hlidx : s.lidx = 0) {b : Nat → Nat} (hb : ∀ j, 0 < b j) :
    (∀ n < 2 ^ 30, s.nleft = toInt32 (UInt32.ofNat (4 * n)) →
      ∃ calls out, (∀ fuel ≥ calls,
          drain (blockOf (readFpgaWordsAscii env)) fuel b s = some out) ∧
        (out = (fpgaDump env s.u32 s.ptr n).flatten ↔
          4 * n < 2 ^ 31 ∧ LastLineUncut b (fpgaDump env s.u32 s.ptr n))) ∧
    (∀ n < 2 ^ 32, s.nleft = toInt32 (UInt32.ofNat n) →
      ∃ calls out, (∀ fuel ≥ calls,
          drain (blockOf (readMemBytesAscii env)) fuel b s = some out) ∧
        (out = (memDump env s.u32 s.ptr n).flatten ↔
          n < 2 ^ 31 ∧ LastLineUncut b (memDump env s.u32 s.ptr n))) := by
  constructor
  · intro n hn hnleft
    refine dump_drain_iff (fpgaSource env) (by omega) hlidx hnleft (fun hl => ⟨n, ?_, rfl⟩) ?_
      (dumpLines_isLine (fun ws => (wordText_spec ws).2) _ _) hb
    · rw [hl]
      omega
    · rw [fpgaDump_eq_nil]
      omega
  · intro n hn hnleft
    refine dump_drain_iff (memSource env) hn hlidx hnleft (fun hl => ⟨n, hl, rfl⟩) ?_
      (dumpLines_isLine (fun bs => (byteText_spec bs).2) _ _) hb
    rw [memDump_eq_nil]
    exact id

/-- A netascii read of 16 FPGA words. -/
def fourLines : Tapcp := { Tapcp.zero with nleft := 64, readFn := .fpgaWordsAscii }

theorem hexDump_complete_fourLines :
    ∃ calls out, (∀ fuel ≥ calls,
        drain (blockOf (readFpgaWordsAscii Env.zero)) fuel (fun _ => 512) fourLines = some out) ∧
      (out = (fpgaDump Env.zero fourLines.u32 fourLines.ptr 16).flatten ↔
        4 * 16 < 2 ^ 31 ∧
          LastLineUncut (fun _ => 512) (fpgaDump Env.zero fourLines.u32 fourLines.ptr 16)) :=
  (hexDump_complete_iff Env.zero fourLines rfl (fun _ => by decide)).1 16 (by decide)
    (by decide +kernel)

/-- A netascii read of 48 FPGA words. -/
def twelveLines : Tapcp := { Tapcp.zero with nleft := 192, readFn := .fpgaWordsAscii }

/--
The dump of 48 words has 12 lines of 46 characters.  The first block of 512 ends six characters into
the last line, and the next one is empty.
-/
theorem twelveLines_cut :
    ∃ calls out, (∀ fuel ≥ calls,
        drain (blockOf (readFpgaWordsAscii Env.zero)) fuel (fun _ => 512) twelveLines = some out) ∧
      out ≠ (fpgaDump Env.zero twelveLines.u32 twelveLines.ptr 48).flatten := by
  have hsrc : FpgaSrc Env.zero twelveLines
      (fpgaDump Env.zero twelveLines.u32 twelveLines.ptr 48) := ⟨48, rfl, rfl⟩
  obtain ⟨calls, out, hdrain, hiff⟩ :=
    (fpgaSource Env.zero).drain_iff rfl hsrc (b := fun _ => 512) (fun _ => by decide)
  refine ⟨calls, out, hdrain, ?_⟩
  rw [Ne, hiff]
  intro huncut
  have hlast : lastStart (fpgaDump Env.zero twelveLines.u32 twelveLines.ptr 48) = 506 := by
    decide +kernel
  have hall : (fpgaDump Env.zero twelveLines.u32 twelveLines.ptr 48).flatten.length = 552 := by
    decide +kernel
  apply huncut 1
  rw [hlast, hall]
  simp [blockStart]

end MlibDevel.Jam
