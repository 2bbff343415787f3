import MlibDevel.Jam.ReadBounds

/-!
# Reading `/flashcmd`

`casper_tapcp_open_flashcmd` sends the bytes of `CMD` and leaves the SPI transaction open.
`casper_tapcp_read_flashcmd_binary` sends the answers to the client and fetches `LEN` more bytes, a
`spi_buf` at a time, in the middle of filling a block.  When the last block has been sent it closes
the transaction.

`Fetching` says what has been sent to the device, what has been delivered and what is still in
`spi_buf` between two calls.  The end of the file is recognised by `len < bytes` with `bytes`
counted down in the loop, so the last block closes the transaction only when it fills less than half
of the buffer (`flashcmd_complete_iff`).
-/

namespace MlibDevel.Jam

open Lib

variable (env : Env)

/-! ## What is to hold -/

/-- A client reads blocks until one is short: the state after each call, and the block. -/
def readToEnd : Nat → Tapcp → Option (List (Tapcp × ReadOut))
  | 0, _ => none
  | fuel + 1, s =>
    match callRead env s tftpMaxPayloadSize with
    | none => none
    | some (s, out) =>
      if out.ret < tftpMaxPayloadSize then some [(s, out)]
      else (readToEnd fuel s).map ((s, out) :: ·)

/--
The calls deliver the answers to `cmd` and to `len` further bytes.  The transaction is closed by the
last call, after all of the `len` bytes have been fetched, and not before.
-/
structure Delivers (mosi cmd : List UInt8) (len : Nat) (calls : List (Tapcp × ReadOut)) : Prop where
  answers : ∃ sent : List UInt8, sent.length = len ∧
    calls.flatMap (·.2.buf) = (spiExchange env mosi (cmd ++ sent)).2
  stays_open : ∀ call ∈ calls.dropLast, .close ∉ call.1.spi
  closed : ∃ fetched : List UInt32, calls.getLast?.map (·.1.spi) =
      some (fetched.map .spiBuf ++ [.close]) ∧
    (fetched.map UInt32.toNat).sum = len ∧ ∀ n ∈ fetched, n.toNat ≤ spiBufLen

/-- A file that has just been opened is read to the end and closed. -/
def Complete (mosi cmd : List UInt8) (len : Nat) (s : Tapcp) : Prop :=
  ∃ n calls, (∀ fuel ≥ n, readToEnd env fuel { s with spi := [] } = some calls) ∧
    Delivers env mosi cmd len calls

/-! ## The SPI device -/

@[simp] theorem spiExchange_fst : ∀ (xs mosi : List UInt8), (spiExchange env mosi xs).1 = mosi ++ xs
  | [], mosi => (List.append_nil mosi).symm
  | x :: xs, mosi => by simp [spiExchange, spiExchange_fst xs]

@[simp] theorem length_spiExchange : ∀ (xs mosi : List UInt8),
    (spiExchange env mosi xs).2.length = xs.length
  | [], _ => rfl
  | x :: xs, mosi => by simp [spiExchange, length_spiExchange xs]

/-- What is sent later does not change the answers. -/
theorem spiExchange_append : ∀ (xs ys mosi : List UInt8),
    (spiExchange env mosi (xs ++ ys)).2 =
      (spiExchange env mosi xs).2 ++ (spiExchange env (mosi ++ xs) ys).2
  | [], ys, mosi => by simp [spiExchange]
  | x :: xs, ys, mosi => by simp [spiExchange, spiExchange_append xs]

/-! ## Between two steps of the loop -/

/--
`sent` has gone to the device since the state with `mosi`, `delivered` to the client, and of `total`
bytes the rest is to come.  The answers that are not delivered yet are in `spi_buf`.
-/
structure Fetching (mosi cmd : List UInt8) (total : Nat) (sent delivered : List UInt8) (s : Tapcp) :
    Prop where
  readFn : s.readFn = .flashcmdBinary
  total_lt : total < 2 ^ 31
  sent_mosi : s.mosi = mosi ++ sent
  sent_cmd : cmd <+: sent
  sent_le : sent.length ≤ total
  size : s.spiBuf.length = spiBufLen
  nleft : s.nleft = (total : Int) - delivered.length
  count : s.u32.toNat + delivered.length = sent.length
  pending : ∃ off, off + s.u32.toNat ≤ spiBufLen ∧ s.ptr = env.spiBufAddr + UInt32.ofNat off ∧
    delivered ++ (s.spiBuf.drop off).take s.u32.toNat = (spiExchange env mosi sent).2
  spi : ∃ fetched : List UInt32, s.spi = fetched.map .spiBuf ∧
    cmd.length + (fetched.map UInt32.toNat).sum = sent.length ∧ ∀ n ∈ fetched, n.toNat ≤ spiBufLen

variable {env} {mosi cmd sent delivered : List UInt8} {total : Nat} {s : Tapcp}

/-- When `spi_buf` is empty and more bytes are to come, it is filled again. -/
theorem Fetching.refill (h : Fetching env mosi cmd total sent delivered s) :
    ∃ sent', Fetching env mosi cmd total sent' delivered (flashcmdRefill env s) ∧
      ((flashcmdRefill env s).u32 = 0 → delivered.length = total) := by
  have hcount := h.count
  have hle := h.sent_le
  have hnleft := h.nleft
  have hlt := h.total_lt
  rw [flashcmdRefill]
  split
  · next hempty =>
    obtain ⟨hu, hne⟩ := hempty
    rw [hu, UInt32.toNat_zero, Nat.zero_add] at hcount
    have hlen : (spiRefill s.nleft).toNat = min (total - delivered.length) spiBufLen := by
      rw [hnleft, ← Nat.cast_sub (by omega)]
      exact toNat_spiRefill
    have hpos : 0 < spiBufLen := by decide
    generalize spiRefill s.nleft = len at hlen
    have htake : (s.spiBuf.take len.toNat).length = len.toNat := by
      rw [List.length_take, h.size]
      omega
    obtain ⟨off, -, -, hanswers⟩ := h.pending
    obtain ⟨fetched, hspi, hsum, hfit⟩ := h.spi
    refine ⟨sent ++ s.spiBuf.take len.toNat, ?_, ?_⟩
    · constructor
      case readFn => exact h.readFn
      case total_lt => exact hlt
      case sent_mosi => simp [sendSpiBuf, h.sent_mosi]
      case sent_cmd => exact h.sent_cmd.trans (List.prefix_append _ _)
      case sent_le =>
        rw [List.length_append, htake]
        omega
      case size =>
        have hsize := h.size
        simp only [sendSpiBuf, List.length_append, length_spiExchange, htake, List.length_drop]
        omega
      case nleft => exact hnleft
      case count =>
        rw [List.length_append, htake]
        show len.toNat + _ = _
        omega
      case pending =>
        refine ⟨0, ?_, (UInt32.add_zero _).symm, ?_⟩
        · show 0 + len.toNat ≤ spiBufLen
          omega
        · rw [hu, UInt32.toNat_zero, List.take_zero, List.append_nil] at hanswers
          rw [spiExchange_append, ← hanswers]
          simp only [sendSpiBuf, List.drop_zero, h.sent_mosi]
          rw [List.take_left' (by rw [length_spiExchange, htake])]
      case spi =>
        refine ⟨fetched ++ [len], by simp [hspi], ?_, ?_⟩
        · rw [List.length_append, htake, List.map_append, List.sum_append, ← hsum]
          simp [Nat.add_assoc]
        · intro n hn
          rcases List.mem_append.mp hn with hn | hn
          · exact hfit n hn
          · rw [List.mem_singleton.mp hn]
            omega
    · intro hzero
      have : len.toNat = 0 := congrArg UInt32.toNat hzero
      omega
  · next hfull =>
    refine ⟨sent, h, fun hzero => ?_⟩
    have : s.nleft = 0 := by
      by_contra hne
      exact hfull ⟨hzero, hne⟩
    omega

/-- `n` bytes are copied from `spi_buf`. -/
theorem Fetching.copy (h : Fetching env mosi cmd total sent delivered s) {n : Nat}
    (hn : n ≤ s.u32.toNat) :
    (spiBytes env s n).length = n ∧
    Fetching env mosi cmd total sent (delivered ++ spiBytes env s n)
      { s with
        ptr := s.ptr + UInt32.ofNat n
        u32 := s.u32 - UInt32.ofNat n
        nleft := wrap32 (s.nleft - n) } := by
  obtain ⟨off, hoff, hptr, hanswers⟩ := h.pending
  have hlt := h.total_lt
  have hcount := h.count
  have hle := h.sent_le
  have hsize := h.size
  have hfits : spiBufLen < 2 ^ 31 := by decide
  have hptrOff : (s.ptr - env.spiBufAddr).toNat = off := by
    rw [hptr, UInt32.add_comm, UInt32.add_sub_cancel, UInt32.toNat_ofNat']
    omega
  have hlen : (spiBytes env s n).length = n := by simp [spiBytes]
  have hbytes : spiBytes env s n = (s.spiBuf.drop off).take n := by
    apply List.ext_getElem
    · rw [hlen, List.length_take, List.length_drop]
      omega
    · intro i hi _
      have hin : off + i < s.spiBuf.length := by omega
      simp [spiBytes, hptrOff, hin]
  have hu : (s.u32 - UInt32.ofNat n).toNat = s.u32.toNat - n := by
    rw [UInt32.toNat_sub, UInt32.toNat_ofNat']
    have := s.u32.toNat_lt
    omega
  refine ⟨hlen, ?_⟩
  constructor
  case readFn => exact h.readFn
  case total_lt => exact hlt
  case sent_mosi => exact h.sent_mosi
  case sent_cmd => exact h.sent_cmd
  case sent_le => exact hle
  case size => exact hsize
  case nleft =>
    have hnleft := h.nleft
    show wrap32 (s.nleft - n) = _
    rw [wrap32_of_mem (by omega) (by omega), List.length_append, hlen]
    omega
  case count =>
    rw [List.length_append, hlen]
    show (s.u32 - UInt32.ofNat n).toNat + _ = _
    omega
  case pending =>
    refine ⟨off + n, ?_, ?_, ?_⟩
    · show off + n + (s.u32 - UInt32.ofNat n).toNat ≤ spiBufLen
      omega
    · show s.ptr + UInt32.ofNat n = _
      rw [hptr, UInt32.add_assoc, UInt32.ofNat_add]
    · show _ ++ (s.spiBuf.drop (off + n)).take (s.u32 - UInt32.ofNat n).toNat = _
      rw [← hanswers, List.append_assoc, hbytes, hu, ← List.drop_drop, ← List.take_add,
        Nat.add_sub_cancel' hn]
  case spi => exact h.spi

/-- The loop delivers what the block has room for, or all the rest. -/
theorem Fetching.loop (bytes : Nat) (h : Fetching env mosi cmd total sent delivered s)
    (hmore : s.u32 = 0 → delivered.length = total) :
    ∃ s' sent' out, flashcmdLoop env s bytes = (s', out, bytes - out.length) ∧
      out.length = min bytes (total - delivered.length) ∧
      Fetching env mosi cmd total sent' (delivered ++ out) s' ∧
      (s'.u32 = 0 → (delivered ++ out).length = total) := by
  induction bytes using Nat.strong_induction_on generalizing s sent delivered with
  | _ bytes ih =>
    rw [flashcmdLoop]
    split
    · next hrun =>
      have hupos : 0 < s.u32.toNat :=
        Nat.pos_of_ne_zero fun he => hrun.1 (UInt32.toNat_inj.mp he)
      have hcount := h.count
      have hle := h.sent_le
      dsimp only
      generalize hn : (if bytes < s.u32.toNat then bytes else s.u32.toNat) = n
      have hn' : 0 < n ∧ n ≤ bytes ∧ n ≤ s.u32.toNat := by
        split at hn <;> omega
      obtain ⟨hlen, hcopied⟩ := h.copy hn'.2.2
      obtain ⟨sent₁, hfilled, hmore₁⟩ := hcopied.refill
      obtain ⟨s', sent', out, hloop, hout, hfetch, hmore'⟩ :=
        ih (bytes - n) (by omega) hfilled hmore₁
      rw [List.length_append, hlen] at hout
      refine ⟨s', sent', spiBytes env s n ++ out, ?_, ?_, ?_, ?_⟩
      · rw [hloop, List.length_append, hlen, Nat.sub_sub]
      · rw [List.length_append, hlen]
        omega
      · rwa [← List.append_assoc]
      · rwa [← List.append_assoc]
    · next hstop =>
      refine ⟨s, sent, [], rfl, ?_, by rwa [List.append_nil], by rwa [List.append_nil]⟩
      rcases Nat.eq_zero_or_pos bytes with rfl | hpos
      · simp
      · have := hmore (by_contra fun hne => hstop ⟨hne, hpos⟩)
        simp [this]

/-! ## Calls -/

/-- A block that is filled leaves the transaction open. -/
theorem Fetching.full_block (h : Fetching env mosi cmd total sent delivered s)
    (hmore : s.u32 = 0 → delivered.length = total)
    (hfull : tftpMaxPayloadSize ≤ total - delivered.length) :
    ∃ s' sent' out, callRead env s tftpMaxPayloadSize = some (s', ⟨out.length, out⟩) ∧
      out.length = tftpMaxPayloadSize ∧ Fetching env mosi cmd total sent' (delivered ++ out) s' ∧
      (s'.u32 = 0 → (delivered ++ out).length = total) := by
  obtain ⟨s', sent', out, hloop, hout, hfetch, hmore'⟩ := h.loop tftpMaxPayloadSize hmore
  rw [Nat.min_eq_left hfull] at hout
  refine ⟨s', sent', out, ?_, hout, hfetch, hmore'⟩
  rw [callRead, h.readFn]
  simp [readFlashcmdBinary, hloop, hout]

/-- A short block holds the rest, and closes the transaction when it fills less than half of the
buffer. -/
theorem Fetching.short_block (h : Fetching env mosi cmd total sent delivered s)
    (hmore : s.u32 = 0 → delivered.length = total)
    (hshort : total - delivered.length < tftpMaxPayloadSize) :
    ∃ last s' sent' out, callRead env s tftpMaxPayloadSize = some (last, ⟨out.length, out⟩) ∧
      last.spi = s'.spi ++ (if 2 * (total - delivered.length) < tftpMaxPayloadSize then [.close]
        else []) ∧
      (delivered ++ out).length = total ∧
      Fetching env mosi cmd total sent' (delivered ++ out) s' := by
  obtain ⟨s', sent', out, hloop, hout, hfetch, hmore'⟩ := h.loop tftpMaxPayloadSize hmore
  have hcount := h.count
  have hle := h.sent_le
  have hhalf : out.length < tftpMaxPayloadSize - out.length ↔
      2 * (total - delivered.length) < tftpMaxPayloadSize := by omega
  refine ⟨(readFlashcmdBinary env s tftpMaxPayloadSize).1, s', sent', out, ?_, ?_, ?_, hfetch⟩
  · rw [callRead, h.readFn]
    simp only [readFlashcmdBinary, hloop]
  · simp only [readFlashcmdBinary, hloop, hhalf]
    split <;> simp
  · rw [List.length_append]
    omega

/-! ## Reading to the end -/

/-- Whether the last of the blocks closes the transaction. -/
def ClosesAfter (rest : Nat) : Prop :=
  2 * (rest % tftpMaxPayloadSize) < tftpMaxPayloadSize

instance decidableClosesAfter (rest : Nat) : Decidable (ClosesAfter rest) :=
  inferInstanceAs (Decidable (_ < _))

/-- A refill does not close the transaction. -/
theorem Fetching.open (h : Fetching env mosi cmd total sent delivered s) : .close ∉ s.spi := by
  obtain ⟨fetched, hspi, -⟩ := h.spi
  simp [hspi]

/-- All of the file is delivered, and closed after the last block or not at all. -/
theorem Fetching.toEnd (h : Fetching env mosi cmd total sent delivered s)
    (hmore : s.u32 = 0 → delivered.length = total) :
    ∃ n calls s' sent', (∀ fuel ≥ n, readToEnd env fuel s = some calls) ∧
      Fetching env mosi cmd total sent' (delivered ++ calls.flatMap (·.2.buf)) s' ∧
      (delivered ++ calls.flatMap (·.2.buf)).length = total ∧
      (∀ call ∈ calls.dropLast, .close ∉ call.1.spi) ∧
      calls.getLast?.map (·.1.spi) =
        some (s'.spi ++ if ClosesAfter (total - delivered.length) then [.close] else []) := by
  have hblock : tftpMaxPayloadSize = 512 := rfl
  induction hk : total - delivered.length using Nat.strong_induction_on
      generalizing s sent delivered with
  | _ k ih =>
    rcases Nat.lt_or_ge k tftpMaxPayloadSize with hshort | hfull
    · obtain ⟨last, s', sent', out, hcall, hspi, hlen, hfetch⟩ := h.short_block hmore (by omega)
      have hret : (out.length : Int) < tftpMaxPayloadSize := by
        rw [List.length_append] at hlen
        omega
      refine ⟨1, [(last, ⟨out.length, out⟩)], s', sent', ?_, by simpa using hfetch,
        by simpa using hlen, by simp, ?_⟩
      · intro fuel hfuel
        obtain ⟨fuel, rfl⟩ := Nat.exists_eq_succ_of_ne_zero (by omega : fuel ≠ 0)
        rw [readToEnd, hcall]
        dsimp only
        rw [if_pos hret]
      · have hcloses : ClosesAfter k ↔ 2 * k < tftpMaxPayloadSize := by
          rw [ClosesAfter, Nat.mod_eq_of_lt hshort]
        simp [hspi, hk, hcloses]
    · obtain ⟨s₁, sent₁, out, hcall, hlen, hfetch₁, hmore₁⟩ := h.full_block hmore (by omega)
      have hrest : total - (delivered ++ out).length = k - tftpMaxPayloadSize := by
        rw [List.length_append]
        omega
      obtain ⟨n, calls, s', sent', hcalls, hfetch, htotal, hopen, hlast⟩ :=
        ih (k - tftpMaxPayloadSize) (by omega) hfetch₁ hmore₁ hrest
      have hne : calls ≠ [] := by
        rintro rfl
        simp at hlast
      refine ⟨n + 1, (s₁, ⟨out.length, out⟩) :: calls, s', sent', ?_, ?_, ?_, ?_, ?_⟩
      · intro fuel hfuel
        obtain ⟨fuel, rfl⟩ := Nat.exists_eq_succ_of_ne_zero (by omega : fuel ≠ 0)
        rw [readToEnd, hcall]
        dsimp only
        rw [if_neg (by omega), hcalls fuel (by omega), Option.map_some]
      · rwa [List.flatMap_cons, ← List.append_assoc]
      · rwa [List.flatMap_cons, ← List.append_assoc]
      · intro call hmem
        rw [List.dropLast_cons_of_ne_nil hne] at hmem
        rcases List.mem_cons.mp hmem with rfl | hmem
        · exact hfetch₁.open
        · exact hopen call hmem
      · have hmod : ClosesAfter (k - tftpMaxPayloadSize) ↔ ClosesAfter k := by
          rw [ClosesAfter, ClosesAfter, Nat.mod_eq_sub_mod hfull]
        obtain ⟨last, hgetLast, hspi⟩ := Option.map_eq_some_iff.mp hlast
        rw [List.getLast?_cons, hgetLast, Option.map_some, Option.getD_some, hspi]
        simp only [hmod]

variable {len : Nat}

/-- **An open file is delivered, and closed if and only if the last block fills less than half of
the buffer.** -/
theorem Fetching.complete_iff
    (h : Fetching env mosi cmd (cmd.length + len) cmd [] { s with spi := [] })
    (hmore : s.u32 = 0 → cmd.length + len = 0) :
    Complete env mosi cmd len s ↔ ClosesAfter (cmd.length + len) := by
  obtain ⟨n, calls, s', sent', hcalls, hfetch, htotal, hopen, hlast⟩ := h.toEnd fun hu =>
    (hmore hu).symm
  rw [List.nil_append] at hfetch htotal
  rw [List.length_nil, Nat.sub_zero] at hlast
  constructor
  · rintro ⟨n', calls', hcalls', hdel⟩
    have heq : calls' = calls := by
      have h₁ := hcalls (max n n') (Nat.le_max_left _ _)
      rw [hcalls' (max n n') (Nat.le_max_right _ _)] at h₁
      exact Option.some.inj h₁
    obtain ⟨fetched, hfetched, -⟩ := hdel.closed
    rw [heq, hlast] at hfetched
    by_contra hnot
    rw [if_neg hnot, List.append_nil] at hfetched
    apply hfetch.open
    rw [Option.some.inj hfetched]
    simp
  · intro hcloses
    rw [if_pos hcloses] at hlast
    refine ⟨n, calls, hcalls, ?_, hopen, ?_⟩
    · obtain ⟨more, hsent⟩ := hfetch.sent_cmd
      have hlen : cmd.length + more.length = sent'.length := by
        rw [← hsent, List.length_append]
      have hcount := hfetch.count
      have hle := hfetch.sent_le
      obtain ⟨off, -, -, hanswers⟩ := hfetch.pending
      refine ⟨more, by omega, ?_⟩
      rw [hsent, ← hanswers, show s'.u32.toNat = 0 by omega, List.take_zero, List.append_nil]
    · obtain ⟨fetched, hspi, hsum, hfit⟩ := hfetch.spi
      have hcount := hfetch.count
      have hle := hfetch.sent_le
      refine ⟨fetched, ?_, by omega, hfit⟩
      rw [hlast, hspi]

/-! ## Opening -/

@[simp] theorem length_hexToU8 : ∀ (n : Nat) (p : List UInt8), (hexToU8 n p).length = n
  | 0, _ => rfl
  | n + 1, p => by rw [hexToU8, List.length_cons, length_hexToU8]

/-- `LEN` of a file name; without one the value of `nleft` stays. -/
def flashcmdLen (s : Tapcp) (fname : List UInt8) : Nat :=
  (flashcmdFields fname (ofInt32 s.nleft)).1.toNat

section

variable {s' : Tapcp} {fname : List UInt8} (hw : s.write = false)
  (hopen : openFlashcmd env s fname = some (s', true))

include hw hopen

/-- The command has been sent, and its answers are in `spi_buf`. -/
theorem openFlashcmd_fetching (hbuf : s.spiBuf.length = spiBufLen)
    (htotal : (flashcmdCmd fname).length + flashcmdLen s fname < 2 ^ 31) :
    Fetching env s.mosi (flashcmdCmd fname) ((flashcmdCmd fname).length + flashcmdLen s fname)
      (flashcmdCmd fname) [] { s' with spi := [] } := by
  obtain ⟨-, hfit, rfl⟩ := openFlashcmd_eq env hw hopen
  have hcmd : (flashcmdCmd fname).length = flashcmdBytes fname := length_hexToU8 _ _
  have hu : (UInt32.ofNat (flashcmdBytes fname)).toNat = (flashcmdCmd fname).length := by
    rw [UInt32.toNat_ofNat', hcmd]
    omega
  have htake : (flashcmdCmd fname ++ s.spiBuf.drop (flashcmdBytes fname)).take
      (UInt32.ofNat (flashcmdBytes fname)).toNat = flashcmdCmd fname := by
    rw [hu, List.take_left]
  constructor
  case readFn => rfl
  case total_lt => exact htotal
  case sent_mosi => simp only [sendSpiBuf, htake, spiExchange_fst]
  case sent_cmd => exact List.prefix_refl _
  case sent_le => omega
  case size =>
    simp only [sendSpiBuf, htake, List.length_append, length_spiExchange, List.length_drop, hbuf]
    omega
  case nleft =>
    have hsum : ((flashcmdFields fname (ofInt32 s.nleft)).1 +
        UInt32.ofNat (flashcmdBytes fname)).toNat =
          (flashcmdCmd fname).length + flashcmdLen s fname := by
      rw [UInt32.toNat_add, hu]
      unfold flashcmdLen at *
      omega
    show toInt32 _ = _
    rw [toInt32_of_lt (by omega), hsum]
    simp
  case count => exact hu
  case pending =>
    refine ⟨0, ?_, (UInt32.add_zero _).symm, ?_⟩
    · show 0 + (UInt32.ofNat (flashcmdBytes fname)).toNat ≤ _
      omega
    · show (List.drop 0 (sendSpiBuf env _ _).spiBuf).take
        (UInt32.ofNat (flashcmdBytes fname)).toNat = _
      simp only [sendSpiBuf, htake, List.drop_zero]
      rw [List.take_left' (by rw [length_spiExchange, hu])]
  case spi => exact ⟨[], rfl, rfl, by simp⟩

end

/-- Without a command nothing is fetched, and the first read ends the file. -/
theorem not_complete_of_noCmd {n : Nat} (hfn : s.readFn = .flashcmdBinary) (hu : s.u32 = 0)
    (hn : n ≠ 0) : ¬Complete env mosi [] n s := by
  rintro ⟨fuel, calls, hcalls, hdel⟩
  have hend : readToEnd env (fuel + 1) { s with spi := [] } =
      some [((readFlashcmdBinary env { s with spi := [] } tftpMaxPayloadSize).1, ⟨0, []⟩)] := by
    have hloop : flashcmdLoop env { s with spi := [] } tftpMaxPayloadSize =
        ({ s with spi := [] }, [], tftpMaxPayloadSize) := by
      rw [flashcmdLoop, dif_neg fun hrun => hrun.1 hu]
    have hcall : callRead env { s with spi := [] } tftpMaxPayloadSize =
        some (readFlashcmdBinary env { s with spi := [] } tftpMaxPayloadSize) := by
      rw [callRead, hfn]
    rw [readToEnd, hcall]
    simp only [readFlashcmdBinary, hloop]
    rfl
  rw [hcalls (fuel + 1) (Nat.le_succ _), Option.some.injEq] at hend
  obtain ⟨sent, hlen, hanswers⟩ := hdel.answers
  rw [hend] at hanswers
  have := congrArg List.length hanswers
  simp [hlen, hn.symm] at this

/-- A call keeps the record of transfers, and its callback. -/
theorem readFlashcmdBinary_spi (bytes : Nat) (s : Tapcp) :
    s.spi <+: (readFlashcmdBinary env s bytes).1.spi ∧
      (readFlashcmdBinary env s bytes).1.readFn = s.readFn := by
  obtain ⟨hspi, hfn⟩ := flashcmdLoop_spi env bytes s
  rw [readFlashcmdBinary]
  dsimp only
  split
  · exact ⟨hspi.trans (List.prefix_append _ _), hfn⟩
  · exact ⟨hspi, hfn⟩

/-- What the first call has asked the device for is on record at the end. -/
theorem readToEnd_spi : ∀ {fuel : Nat} {s : Tapcp} {calls : List (Tapcp × ReadOut)},
    s.readFn = .flashcmdBinary → readToEnd env fuel s = some calls →
    ∃ last, calls.getLast? = some last ∧
      (readFlashcmdBinary env s tftpMaxPayloadSize).1.spi <+: last.1.spi
  | 0, _, _, _, h => by cases h
  | fuel + 1, s, calls, hfn, h => by
    have hcall : callRead env s tftpMaxPayloadSize =
        some (readFlashcmdBinary env s tftpMaxPayloadSize) := by
      rw [callRead, hfn]
    rw [readToEnd, hcall] at h
    dsimp only at h
    split at h
    · cases h
      exact ⟨_, rfl, List.prefix_refl _⟩
    · obtain ⟨rest, hrest, rfl⟩ := Option.map_eq_some_iff.mp h
      obtain ⟨last, hlast, hspi⟩ := readToEnd_spi
        ((readFlashcmdBinary_spi tftpMaxPayloadSize s).2.trans hfn) hrest
      refine ⟨last, by simp [List.getLast?_cons, hlast], ?_⟩
      exact (readFlashcmdBinary_spi tftpMaxPayloadSize _).1.trans hspi

/-- A length of 2³¹ or more makes a refill that does not fit `spi_buf`. -/
theorem not_complete_of_overlong {len : UInt32} {n : Nat} (hfn : s.readFn = .flashcmdBinary)
    (hu : s.u32 ≠ 0) (hule : s.u32.toNat ≤ tftpMaxPayloadSize)
    (hleft : s.nleft = toInt32 (len + s.u32)) (hlen : 2 ^ 31 ≤ len.toNat) :
    ¬Complete env mosi cmd n s := by
  rintro ⟨fuel, calls, hcalls, hdel⟩
  obtain ⟨last, hlast, hspi⟩ := readToEnd_spi (s := { s with spi := [] }) hfn
    (hcalls fuel (Nat.le_refl _))
  have hmem := hspi.subset
    (readFlashcmdBinary_overlong env (s := { s with spi := [] }) hu hule hleft hlen)
  obtain ⟨fetched, hclosed, -, hfit⟩ := hdel.closed
  rw [hlast, Option.map_some, Option.some.injEq] at hclosed
  have hfetched : len ∈ fetched := by simpa [hclosed] using hmem
  have := hfit len hfetched
  unfold spiBufLen tftpMaxFilenameLen at this
  omega

/--
**A `/flashcmd` file is delivered and its transaction closed if and only if** `LEN` is less than
2³¹, there is a command or nothing to fetch, and the last block fills less than half of the buffer.
-/
theorem flashcmd_complete_iff {s' : Tapcp} {fname : List UInt8} (hw : s.write = false)
    (hbuf : s.spiBuf.length = spiBufLen) (hopen : openFlashcmd env s fname = some (s', true))
    (hnonneg : 0 ≤ s'.nleft) :
    Complete env s.mosi (flashcmdCmd fname) (flashcmdLen s fname) s' ↔
      flashcmdLen s fname < 2 ^ 31 ∧ (flashcmdCmd fname ≠ [] ∨ flashcmdLen s fname = 0) ∧
        ((flashcmdCmd fname).length + flashcmdLen s fname) % 512 < 256 := by
  have hcmd : (flashcmdCmd fname).length = flashcmdBytes fname := length_hexToU8 _ _
  obtain ⟨-, hfit, hs'⟩ := openFlashcmd_eq env hw hopen
  have hfn : s'.readFn = .flashcmdBinary := by rw [hs']
  have hu : s'.u32 = UInt32.ofNat (flashcmdBytes fname) := by rw [hs']; rfl
  have hleft : s'.nleft = toInt32 ((flashcmdFields fname (ofInt32 s.nleft)).1 + s'.u32) := by
    rw [hu, hs']
    rfl
  have hbytes : flashcmdBytes fname ≤ 128 := hfit
  have huNat : s'.u32.toNat = flashcmdBytes fname := by
    rw [hu, UInt32.toNat_ofNat']
    omega
  rcases Nat.lt_or_ge (flashcmdLen s fname) (2 ^ 31) with hlt | hge
  · have htotal : (flashcmdCmd fname).length + flashcmdLen s fname < 2 ^ 31 := by
      have hnot := mt (toInt32_neg_iff _).mpr (not_lt.mpr (hleft ▸ hnonneg))
      rw [UInt32.toNat_add, huNat] at hnot
      unfold flashcmdLen at *
      omega
    by_cases hempty : flashcmdCmd fname = [] ∧ flashcmdLen s fname ≠ 0
    · obtain ⟨hnil, hne⟩ := hempty
      have hzero : s'.u32 = 0 := by
        rw [hu, ← hcmd, hnil]
        rfl
      rw [hnil]
      refine iff_of_false (not_complete_of_noCmd hfn hzero hne) ?_
      rintro ⟨-, h | h, -⟩
      · exact h rfl
      · exact hne h
    · have hsome : flashcmdCmd fname ≠ [] ∨ flashcmdLen s fname = 0 := by
        by_contra hno
        rw [not_or, not_not] at hno
        exact hempty hno
      rw [(openFlashcmd_fetching hw hopen hbuf htotal).complete_iff fun hzero => ?_]
      · rw [ClosesAfter, show tftpMaxPayloadSize = 512 from rfl]
        constructor
        · intro h
          exact ⟨hlt, hsome, by omega⟩
        · rintro ⟨-, -, h⟩
          omega
      · rw [hzero, UInt32.toNat_zero] at huNat
        rcases hsome with hne | hlen
        · exact absurd (List.length_eq_zero_iff.mp (by omega)) hne
        · omega
  · have hne : s'.u32 ≠ 0 := by
      intro hzero
      rw [hzero, UInt32.add_zero] at hleft
      have := (toInt32_neg_iff _).mpr hge
      omega
    refine iff_of_false (not_complete_of_overlong hfn hne ?_ hleft hge) ?_
    · rw [huNat]
      exact hbytes.trans (by decide)
    · rintro ⟨h, -⟩
      omega

/-- `/flashcmd.3.9F`: one byte is sent and three are fetched. -/
theorem flashcmd_complete_iff_fourBytes :
    let s := { Tapcp.zero with binary := true }
    let fname := ascii "/flashcmd.3.9F"
    ∃ s', openFlashcmd Env.zero s fname = some (s', true) ∧ 0 ≤ s'.nleft ∧
      Complete Env.zero s.mosi [0x9f] 3 s' := by
  refine ⟨_, rfl, by decide, ?_⟩
  refine (@flashcmd_complete_iff Env.zero { Tapcp.zero with binary := true } _
    (ascii "/flashcmd.3.9F") rfl rfl rfl (by decide)).mpr ?_
  exact ⟨by decide, Or.inl (by decide), by decide⟩

/-- `/flashcmd.FF.9F` is 256 bytes, half a block, and stays open. -/
theorem flashcmd_halfBlock_not_complete :
    let s := { Tapcp.zero with binary := true }
    let fname := ascii "/flashcmd.FF.9F"
    ∃ s', openFlashcmd Env.zero s fname = some (s', true) ∧ 0 ≤ s'.nleft ∧
      flashcmdCmd fname = [0x9f] ∧ flashcmdLen s fname = 255 ∧
      ¬Complete Env.zero s.mosi (flashcmdCmd fname) (flashcmdLen s fname) s' := by
  refine ⟨_, rfl, by decide, by decide, by decide, ?_⟩
  have hfetch := @openFlashcmd_fetching Env.zero { Tapcp.zero with binary := true } _
    (ascii "/flashcmd.FF.9F") rfl rfl rfl (by decide)
  rw [hfetch.complete_iff (by decide)]
  decide

end MlibDevel.Jam
