import MlibDevel.Jam.Tapcp

/-!
# TAPCP: write callbacks (`casper_tapcp.c`)

A write callback walks the chain of packet buffers and handles one byte after another.  The loops
over the chain are the same in all of them, so the walk is a definition of its own with the
treatment of a byte as its parameter; how the chain is cut then cannot matter (`walkPbuf_flatten`).
-/

namespace MlibDevel.Jam

open Lib

/-! ## Walking a chain -/

/-- What the treatment of a byte comes to. -/
inductive Flow (σ : Type)
  /-- on to the next byte -/
  | next (s : σ)
  /-- `return -1` -/
  | error (s : σ)
  /-- an access outside a static buffer -/
  | fault

/-- The state, if there is one, has a property. -/
def Flow.All {σ : Type} (P : σ → Prop) : Flow σ → Prop
  | .next s => P s
  | .error s => P s
  | .fault => True

/-- Forget the local variables. -/
def Flow.map {σ τ : Type} (f : σ → τ) : Flow σ → Flow τ
  | .next s => .next (f s)
  | .error s => .error (f s)
  | .fault => .fault

/-- The `for` loop over the bytes of a buffer. -/
def eachByte {σ : Type} (step : UInt8 → σ → Flow σ) : List UInt8 → σ → Flow σ
  | [], s => .next s
  | c :: cs, s =>
    match step c s with
    | .next s => eachByte step cs s
    | r => r

/-- The `while` loop over the chain: it ends at the last buffer with `tot_len <= len`. -/
def walkPbuf {σ : Type} (step : UInt8 → σ → Flow σ) : Pbuf → σ → Flow σ
  | [], s => .next s
  | q :: p, s =>
    match eachByte step q s with
    | .next s => if Pbuf.totLen (q :: p) ≤ q.length then .next s else walkPbuf step p s
    | r => r

section

variable {σ : Type} (step : UInt8 → σ → Flow σ)

theorem eachByte_append : ∀ (xs ys : List UInt8) (s : σ),
    eachByte step (xs ++ ys) s =
      match eachByte step xs s with
      | .next s => eachByte step ys s
      | r => r
  | [], _, _ => rfl
  | c :: xs, ys, s => by
    rw [List.cons_append, eachByte, eachByte]
    cases step c s with
    | next s => exact eachByte_append xs ys s
    | error s => rfl
    | fault => rfl

/-- **Only the bytes of a chain matter, not how they are cut.** -/
theorem walkPbuf_flatten : ∀ (p : Pbuf) (s : σ), walkPbuf step p s = eachByte step p.flatten s
  | [], _ => rfl
  | q :: p, s => by
    rw [walkPbuf, List.flatten_cons, eachByte_append]
    cases eachByte step q s with
    | next s =>
      dsimp only
      split
      · -- the rest of the chain is empty
        next h =>
        have hnil : p.flatten = [] := by
          rw [Pbuf.totLen, List.flatten_cons, List.length_append] at h
          exact List.length_eq_zero_iff.mp (by omega)
        rw [hnil, eachByte]
      · exact walkPbuf_flatten p s
    | error s => rfl
    | fault => rfl

/-- What every byte preserves holds after all of them, and when one is refused. -/
theorem eachByte_all {P : σ → Prop} (hstep : ∀ c s, P s → (step c s).All P) :
    ∀ (cs : List UInt8) {s : σ}, P s → (eachByte step cs s).All P
  | [], _, hs => hs
  | c :: cs, s, hs => by
    have hc := hstep c s hs
    rw [eachByte]
    cases h : step c s with
    | next s₁ =>
      rw [h] at hc
      exact eachByte_all hstep cs hc
    | error s₁ =>
      rw [h] at hc
      exact hc
    | fault => trivial

end

/-! ## Write callbacks -/

/-- What a write callback comes to. -/
inductive WriteOut
  | ret (s : Tapcp) (n : Int)
  /-- the FPGA is reprogrammed from a flash address -/
  | reboot (addr : UInt32)
  /-- an access outside a static buffer -/
  | fault

/-- The end of a callback that returns `tot_len`, which stays zero. -/
def Flow.toWriteOut : Flow Tapcp → WriteOut
  | .next s => .ret s 0
  | .error s => .ret s (-1)
  | .fault => .fault

theorem Flow.ret_all {P : Tapcp → Prop} {r : Flow Tapcp} (h : r.All P) {s : Tapcp} {n : Int}
    (hret : r.toWriteOut = .ret s n) : P s := by
  cases r with
  | next s₁ =>
    cases hret
    exact h
  | error s₁ =>
    cases hret
    exact h
  | fault => cases hret

/-- `casper_tftp_write_error` -/
def writeError (s : Tapcp) : WriteOut := .ret s (-1)

/-- `FLASH_SECTOR_SIZE` -/
def flashSectorSize : Nat := 0x10000

/--
`flash_write_page`: the page is sent from its array, and what the device sends back at the same time
is stored there.
-/
def flashWritePage (env : Env) (addr : UInt32) : Tapcp × Page → Tapcp × Page
  | (s, page) =>
    ({ s with flashOps := s.flashOps ++ [.program addr page] }, env.pageAnswer s.flashOps)

/-- `if ((state->ptr % FLASH_SECTOR_SIZE) == 0) flash_erase_sector(state->ptr)` -/
def eraseNewSector (s : Tapcp) : Tapcp :=
  if s.ptr.toNat % flashSectorSize = 0 then { s with flashOps := s.flashOps ++ [.erase s.ptr] }
  else s

/-- A byte of `casper_tapcp_write_flash_words_binary`. -/
def writeFlashByte (env : Env) (c : UInt8) : Tapcp × Page → Flow (Tapcp × Page)
  | (s, page) =>
    let s := eraseNewSector s
    let page := page.set (s.u32.toNat % flashPageSize) c
    let s := { s with ptr := s.ptr + 1, u32 := s.u32 + 1 }
    .next <|
      if s.u32.toNat % flashPageSize = 0 then
        flashWritePage env (s.ptr - UInt32.ofNat flashPageSize) (s, page)
      else (s, page)

/-- The end of `casper_tapcp_write_flash_words_binary`: a page that is not complete is written. -/
def flushPage (env : Env) : Tapcp × Page → Tapcp
  | (s, page) =>
    let bytesLeft := s.u32.toNat % flashPageSize
    if bytesLeft ≠ 0 then (flashWritePage env (s.ptr - UInt32.ofNat bytesLeft) (s, page)).1 else s

/-- `casper_tapcp_write_flash_words_binary` -/
def writeFlashWordsBinary (env : Env) (s : Tapcp) (pbuf : Pbuf) : WriteOut :=
  ((walkPbuf (writeFlashByte env) pbuf (s, env.page s.u32)).map (flushPage env)).toWriteOut

/-- A byte of `casper_tapcp_write_fpga_words_binary`. -/
def writeFpgaByte (c : UInt8) (s : Tapcp) : Flow Tapcp :=
  if s.nleft = 0 then .error s
  else
    let s := { s with writeWord := (s.writeWord <<< 8) ||| c.toUInt32, u32 := s.u32 + 1 }
    let s :=
      if s.u32.toNat % 4 = 0 then
        { s with ptr := s.ptr + 4, bus := s.bus ++ [.write s.ptr s.writeWord] }
      else s
    .next (if s.nleft > 0 then { s with nleft := s.nleft - 1 } else s)

/-- `casper_tapcp_write_fpga_words_binary` -/
def writeFpgaWordsBinary (s : Tapcp) (pbuf : Pbuf) : WriteOut :=
  (walkPbuf writeFpgaByte pbuf s).toWriteOut

/-- `casper_tapcp_write_progdev` -/
def writeProgdev (s : Tapcp) (pbuf : Pbuf) : WriteOut :=
  if !s.binary then .ret s (-1)
  else
    match pbuf with
    | [] => .ret s (-1)
    | q :: _ =>
      match payloadWord q with
      | some (word, []) => .reboot word
      | _ => .ret s (-1)

/-- `hex_to_u32` does not move back. -/
theorem length_hexLoop_le : ∀ (i : Nat) (p : List UInt8) (u32 : UInt32),
    (hexLoop i p u32).2.length ≤ p.length
  | 0, _, _ => Nat.le_refl _
  | i + 1, p, u32 => by
    rw [hexLoop]
    split
    · exact Nat.le_refl _
    · have := length_hexLoop_le i p.tail ((u32 <<< 4) ||| xdigitValue (deref p))
      rw [List.length_tail] at this
      omega

/-- At a hex digit `hex_to_u32` advances. -/
theorem length_hexToU32_lt {c : UInt8} {p : List UInt8} {u32 : UInt32} (hc : isxdigit c = true) :
    (hexToU32 (c :: p) u32).2.length < (c :: p).length := by
  have hne : deref (c :: p) ≠ 0 := by
    rintro h
    rw [deref_cons] at h
    rw [h] at hc
    exact absurd hc (by decide)
  rw [hexToU32, if_pos hne, hexLoop, deref_cons, hc, if_neg (by decide), List.tail_cons]
  have := length_hexLoop_le 7 p (((0 : UInt32) <<< 4) ||| xdigitValue c)
  rw [List.length_cons]
  omega

/-- A word of the text is written to the FPGA; a positive `nleft` counts down. -/
def storeWord (s : Tapcp) (word : UInt32) : Tapcp :=
  { s with
    lineWord := word
    ptr := s.ptr + 4
    nleft := if s.nleft > 0 then s.nleft - 4 else s.nleft
    bus := s.bus ++ [.write s.ptr word] }

/--
The loop of `casper_tapcp_write_fpga_words_ascii` that processes a line, from a pointer into
`line_buf` on.  The source parses contiguous words in a loop of their own; when that ends the
pointer is not at a hex digit, so the two loops take turns as one loop does.
-/
def lineWords (p : List UInt8) (s : Tapcp) : Flow (Tapcp × List UInt8) :=
  match p with
  | [] => .fault
  | c :: p =>
    if c = newline then .next (s, c :: p)
    else if isspace c then lineWords p s
    else if _hc : isxdigit c = true then
      if 0 ≤ s.nleft ∧ s.nleft < 4 then .error (s, c :: p)
      else
        let word := hexToU32 (c :: p) s.lineWord
        lineWords word.2 (storeWord s word.1)
    else .next (s, c :: p)
termination_by p.length
decreasing_by
  · exact Nat.lt_succ_self _
  · exact length_hexToU32_lt _hc

/--
A byte of `casper_tapcp_write_fpga_words_ascii`.  Besides the state there is the local `plb`, as an
index into `line_buf`.  `lidx` is compared with `sizeof(line_buf)` as an unsigned number.
-/
def writeAsciiByte (c : UInt8) : Tapcp × Nat → Flow (Tapcp × Nat)
  | (s, plb) =>
    if s.lidx < 0 ∨ lineBufSize ≤ s.lidx then .error (s, plb)
    else if s.lidx = 0 ∧ isspace c then .next (s, plb)
    else if c = colon ∧ s.u32 = 0 then .next ({ s with lidx := 0, u32 := 1 }, 0)
    else
      match s.lineBuf.set plb c with
      | none => .fault
      | some lineBuf =>
        let s := { s with lineBuf, lidx := s.lidx + 1 }
        if c = newline then
          match lineWords lineBuf.bytes s with
          | .next (s, p) => .next ({ s with lidx := 0, u32 := 0 }, lineBufSize - p.length)
          | .error (s, p) => .error (s, lineBufSize - p.length)
          | .fault => .fault
        else .next (s, plb + 1)

/-- `casper_tapcp_write_fpga_words_ascii` -/
def writeFpgaWordsAscii (s : Tapcp) (pbuf : Pbuf) : WriteOut :=
  ((walkPbuf writeAsciiByte pbuf (s, s.lidx.toNat)).map Prod.fst).toWriteOut

/-- A call of the installed write callback. -/
def callWrite (env : Env) (s : Tapcp) (pbuf : Pbuf) : WriteOut :=
  match s.writeFn with
  | .error => writeError s
  | .fpgaWordsBinary => writeFpgaWordsBinary s pbuf
  | .fpgaWordsAscii => writeFpgaWordsAscii s pbuf
  | .flashWordsBinary => writeFlashWordsBinary env s pbuf
  | .progdev => writeProgdev s pbuf

/-- Call after call of the callback, and what each returns. -/
def callWrites (env : Env) : List Pbuf → Tapcp → Option (Tapcp × List Int)
  | [], s => some (s, [])
  | pbuf :: pbufs, s =>
    match callWrite env s pbuf with
    | .ret s n => (callWrites env pbufs s).map fun r => (r.1, n :: r.2)
    | _ => none

/-- The bytes of calls. -/
def sentBytes (pbufs : List Pbuf) : List UInt8 := (pbufs.map List.flatten).flatten

end MlibDevel.Jam
