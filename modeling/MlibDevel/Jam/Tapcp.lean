import MlibDevel.Jam.Csl
import MlibDevel.Jam.Hex
import MlibDevel.Jam.TftpServer
import MlibDevel.Lib.Int32

/-!
# TAPCP: state and read callbacks (`casper_tapcp.c`)

A TAPCP file is opened by one of the `casper_tapcp_open_*` functions, which set up
`struct tapcp_state` and install a read or a write callback.  The TFTP server then calls it with a
buffer or with a pbuf chain until the transfer ends.

`Tapcp` holds `struct tapcp_state` with the static variables of the file.  `nleft` is an `int` and
modelled as an integer; addresses and `u32` are unsigned 32-bit numbers.  `Env` is what the code
reads and does not write: memory, flash, the SPI device and the data linked in.

A read callback stores bytes in the buffer one after another; the model returns them.  An access
outside a static buffer is an error of the model (`none`).
-/

namespace MlibDevel.Jam

open Lib

/-! ## State -/

/-- `sizeof(line_buf)` -/
def lineBufSize : Nat := 256 + 2 + 9 + 9 + 3

/-- `SPI_BUF_LEN` -/
def spiBufLen : Nat := tftpMaxFilenameLen

/-- `line_buf` -/
structure LineBuf where
  bytes : List UInt8
  size : bytes.length = lineBufSize

/-- `line_buf` as the loader leaves it. -/
def LineBuf.zero : LineBuf := ⟨List.replicate lineBufSize 0, List.length_replicate⟩

/-- Write a line through a pointer that starts at the beginning of the buffer. -/
def LineBuf.put (b : LineBuf) (line : List UInt8) : Option LineBuf :=
  if h : line.length ≤ lineBufSize then
    some ⟨line ++ b.bytes.drop line.length, by simp [b.size]; omega⟩
  else none

/-- `line_buf[i] = c` -/
def LineBuf.set (b : LineBuf) (i : Nat) (c : UInt8) : Option LineBuf :=
  if i < lineBufSize then some ⟨b.bytes.set i c, by rw [List.length_set, b.size]⟩ else none

theorem LineBuf.set_of_lt (b : LineBuf) {i : Nat} (hi : i < lineBufSize) (c : UInt8) :
    ∃ b', b.set i c = some b' ∧ b'.bytes = b.bytes.set i c := by
  rw [LineBuf.set, if_pos hi]
  exact ⟨_, rfl, rfl⟩

/-- `FLASH_PAGE_SIZE` -/
def flashPageSize : Nat := 0x100

/-- The array `page` of `casper_tapcp_write_flash_words_binary`. -/
structure Page where
  bytes : List UInt8
  size : bytes.length = flashPageSize
  deriving DecidableEq, Repr

/-- A page of zeros. -/
def Page.zero : Page := ⟨List.replicate flashPageSize 0, List.length_replicate⟩

/-- `page[i] = c` for an index within the page -/
def Page.set (page : Page) (i : Nat) (c : UInt8) : Page :=
  ⟨page.bytes.set i c, by rw [List.length_set, page.size]⟩

/-- The functions `casper_tftp_context.read` can point to. -/
inductive ReadFn
  | error | help | temp | listdevAscii | flashBytesBinary | memBytesBinary | memBytesAscii
  | fpgaWordsBinary | fpgaWordsAscii | flashcmdBinary
  deriving DecidableEq, Repr

/-- The functions `casper_tftp_context.write` can point to. -/
inductive WriteFn
  | error | fpgaWordsBinary | fpgaWordsAscii | flashWordsBinary | progdev
  deriving DecidableEq, Repr

/-- An access of a callback to an FPGA word. -/
inductive Access
  | read (addr : UInt32)
  | write (addr word : UInt32)
  deriving DecidableEq, Repr

/-- The address of an access. -/
def Access.addr : Access → UInt32
  | .read addr => addr
  | .write addr _ => addr

/-- A call of `send_spi` for the data of a file, by the buffer it fills. -/
inductive SpiCall
  | tftpBuf (len : UInt32)
  | spiBuf (len : UInt32)
  /-- `send_spi(NULL, NULL, 0, 0)` -/
  | close
  deriving DecidableEq, Repr

/-- An operation on flash. -/
inductive FlashOp
  | erase (addr : UInt32)
  | program (addr : UInt32) (page : Page)
  deriving DecidableEq, Repr

/-- The state of a transfer, the static variables, and what the callbacks have done so far. -/
structure Tapcp where
  binary : Bool
  write : Bool
  ptr : UInt32
  nleft : Int
  lidx : Int
  u32 : UInt32
  lineBuf : LineBuf
  spiBuf : List UInt8
  /-- `word` of `casper_tapcp_read_fpga_words_binary` -/
  readWord : UInt32
  /-- `word` of `casper_tapcp_write_fpga_words_binary` -/
  writeWord : UInt32
  /-- `word` of `casper_tapcp_write_fpga_words_ascii` -/
  lineWord : UInt32
  csl : CslIter
  readFn : ReadFn
  writeFn : WriteFn
  /-- the FPGA words accessed -/
  bus : List Access
  /-- the SPI transfers of file data -/
  spi : List SpiCall
  /-- the flash operations -/
  flashOps : List FlashOp
  /-- the bytes sent to the SPI device -/
  mosi : List UInt8

/-- The statics as the loader leaves them, with the callbacks of `casper_tftp_init`. -/
def Tapcp.zero : Tapcp where
  binary := false
  write := false
  ptr := 0
  nleft := 0
  lidx := 0
  u32 := 0
  lineBuf := .zero
  spiBuf := List.replicate spiBufLen 0
  readWord := 0
  writeWord := 0
  lineWord := 0
  csl := .zero
  readFn := .error
  writeFn := .error
  bus := []
  spi := []
  flashOps := []
  mosi := []

/-- What the code reads. -/
structure Env where
  load32 : UInt32 → UInt32
  load8 : UInt32 → UInt8
  flash : UInt32 → UInt8
  /-- the SPI device's answer to the last of the bytes sent to it -/
  spi : List UInt8 → UInt8
  coreInfo : List UInt8
  coreInfoSize : UInt16
  coreInfoAddr : UInt32
  helpAddr : UInt32
  /-- `USE_XADC`, `USE_ICAP` and `USE_SPI` are defined -/
  useXadc : Bool
  useIcap : Bool
  useSpi : Bool
  spiBufAddr : UInt32
  /-- the word `casper_tapcp_read_temp` stores in binary mode -/
  tempWord : UInt32
  /-- the temperature in tenths of a degree, `(int)(10 * fpga_temp)` -/
  tempDeci : Int
  /-- what the stack holds where `casper_tapcp_write_flash_words_binary` has its `page`, by the
  number of bytes written before the call -/
  page : UInt32 → Page
  /-- what the flash sends back while it receives a page, by the operations before -/
  pageAnswer : List FlashOp → Page

/-- Memory, flash and the SPI device read as zero, and there is no core info. -/
def Env.zero : Env where
  load32 _ := 0
  load8 _ := 0
  flash _ := 0
  spi _ := 0
  coreInfo := [0, 0, 0]
  coreInfoSize := 3
  coreInfoAddr := 0x1000
  helpAddr := 0x2000
  useXadc := true
  useIcap := true
  useSpi := true
  spiBufAddr := 0x3000
  tempWord := 0
  tempDeci := 0
  page _ := .zero
  pageAnswer _ := .zero

variable (env : Env)

/-- `tapcp_help_msg` -/
def Env.tapcpHelpMsg : List UInt8 :=
  ascii "Available TAPCP commands:\n" ++
  ascii "  /help    - this message\n" ++
  ascii "  /listdev - list FPGA device info\n" ++
  (if env.useXadc then ascii "  /temp    - get FPGA temperature\n" else []) ++
  (if env.useIcap then ascii "  /progdev - Boot FPGA from flash.\n" else []) ++
  (if env.useSpi then
    ascii "  /flash.OFFSET[.LENGTH] - access flash memory\n" ++
    ascii "  /flashcmd[.LEN].CMD - low level flash commands\n" else []) ++
  ascii "  [/dev/]DEVNAME[.OFFSET[.LENGTH]] - access DEVNAME\n" ++
  ascii "  /fpga.OFFSET[.LENGTH] - access FPGA memory space\n" ++
  ascii "  /cpu.OFFSET[.LENGTH]  - access CPU memory space\n"

/-- The `n` bytes of memory from an address on. -/
def Env.bytesAt (addr : UInt32) (n : Nat) : List UInt8 :=
  (List.range n).map fun i => env.load8 (addr + UInt32.ofNat i)

/-! ## SPI -/

/-- Exchange bytes with the SPI device: everything sent so far, and the answers. -/
def spiExchange : List UInt8 → List UInt8 → List UInt8 × List UInt8
  | sent, [] => (sent, [])
  | sent, x :: xs =>
    let sent := sent ++ [x]
    let (sent', answers) := spiExchange sent xs
    (sent', env.spi sent :: answers)

/-- `send_spi(spi_buf, spi_buf, len, …)`: the answers replace the bytes sent. -/
def sendSpiBuf (s : Tapcp) (len : UInt32) : Tapcp :=
  let (mosi, answers) := spiExchange env s.mosi (s.spiBuf.take len.toNat)
  { s with mosi, spiBuf := answers ++ s.spiBuf.drop len.toNat }

/-! ## Read callbacks -/

/-- What a read callback returns and the bytes it has stored in the buffer. -/
structure ReadOut where
  ret : Int
  buf : List UInt8

/-- `casper_tftp_read_error` -/
def readError (s : Tapcp) : Tapcp × ReadOut := (s, ⟨-1, []⟩)

/-- `casper_tapcp_read_help` -/
def readHelp (s : Tapcp) (bytes : Nat) : Tapcp × ReadOut :=
  let len : Int := if (bytes : Int) < s.nleft then bytes else s.nleft
  ({ s with ptr := s.ptr + ofInt32 len, nleft := s.nleft - len },
   ⟨len, env.bytesAt s.ptr (ofInt32 len).toNat⟩)

/-- The character `'0' + n`. -/
def digitByte (n : Int) : UInt8 := UInt8.ofInt (0x30 + n)

/-- The text of `casper_tapcp_read_temp`. -/
def tempText (t : Int) : List UInt8 :=
  (if t > 1000 then [digitByte ((t.tdiv 1000).tmod 10)] else []) ++
  (if t > 100 then [digitByte ((t.tdiv 100).tmod 10)] else []) ++
  [digitByte ((t.tdiv 10).tmod 10), 0x2e, digitByte (t.tmod 10), newline]

/-- `casper_tapcp_read_temp` -/
def readTemp (s : Tapcp) (bytes : Nat) : Tapcp × ReadOut :=
  if bytes < 6 then (s, ⟨-1, []⟩)
  else
    let buf := if s.binary then be32 env.tempWord.toNat else tempText env.tempDeci
    (s, ⟨buf.length, buf⟩)

/--
The copy loop of the callbacks that send lines: copy from `line_buf + lidx` until the end of the
line or until `n` bytes are copied.  Returns the bytes, the new `lidx` and the room left.
-/
def copyLine (b : LineBuf) : Nat → Nat → Option (List UInt8 × Nat × Nat)
  | lidx, 0 => some ([], lidx, 0)
  | lidx, n + 1 =>
    match b.bytes[lidx]? with
    | none => none
    | some c =>
      if c = newline then some ([c], 0, n)
      else
        match copyLine b (lidx + 1) n with
        | none => none
        | some (cs, lidx, n) => some (c :: cs, lidx, n)

theorem copyLine_lt {b : LineBuf} : ∀ {n lidx : Nat} {out : List UInt8} {lidx' n' : Nat},
    copyLine b lidx n = some (out, lidx', n') → 0 < n → n' < n
  | 0, _, _, _, _, _, hn => absurd hn (lt_irrefl 0)
  | n + 1, lidx, out, lidx', n', h, _ => by
    rw [copyLine] at h
    split at h
    · simp at h
    · split at h
      · simp only [Option.some.injEq, Prod.mk.injEq] at h
        omega
      · split at h
        · simp at h
        · next cs l r hrec =>
          simp only [Option.some.injEq, Prod.mk.injEq] at h
          rcases Nat.eq_zero_or_pos n with rfl | hn
          · rw [copyLine] at hrec
            simp only [Option.some.injEq, Prod.mk.injEq] at hrec
            omega
          · have := copyLine_lt hrec hn
            omega

/--
The loop of the callbacks that send lines.  `more` is the condition of the loop besides
`len < bytes`, `newLine` fills `line_buf` with the next line (or says that there is none), and `n`
is `bytes - len`.
-/
def lineLoop (more : Tapcp → Bool) (newLine : Tapcp → Option (Tapcp × Bool)) (s : Tapcp)
    (n : Nat) : Option (Tapcp × List UInt8) :=
  if _hn : 0 < n ∧ more s then
    match if s.lidx = 0 then newLine s else some (s, true) with
    | none => none
    | some (s, false) => some (s, [])
    | some (s, true) =>
      match _hc : copyLine s.lineBuf s.lidx.toNat n with
      | none => none
      | some (out, lidx, n') =>
        match lineLoop more newLine { s with lidx } n' with
        | none => none
        | some (s, rest) => some (s, out ++ rest)
  else some (s, [])
termination_by n
decreasing_by exact copyLine_lt _hc _hn.1

/-- A call of a line sending callback: `len` is the number of bytes stored. -/
def readLinesOf (more : Tapcp → Bool) (newLine : Tapcp → Option (Tapcp × Bool)) (s : Tapcp)
    (bytes : Nat) : Option (Tapcp × ReadOut) :=
  (lineLoop more newLine s bytes).map fun r => (r.1, ⟨r.2.length, r.2⟩)

/-- A big-endian word read through `payload`. -/
def payloadWord : List UInt8 → Option (UInt32 × List UInt8)
  | a :: b :: c :: d :: rest =>
    some (a.toUInt32 <<< 24 ||| b.toUInt32 <<< 16 ||| c.toUInt32 <<< 8 ||| d.toUInt32, rest)
  | _ => none

/-- A line of `/listdev`: name, mode, offset, length and type code. -/
def listdevLine (name payload : List UInt8) : Option (List UInt8) :=
  match payloadWord payload with
  | none => none
  | some (offset, payload) =>
    match payloadWord payload with
    | some (length, typecode :: _) =>
      let tab : UInt8 := 0x09
      some (name ++ [tab, if offset &&& 1 ≠ 0 then 0x31 else 0x33, tab]
        ++ u32ToHex (offset &&& ~~~3) 0 ++ [tab] ++ u32ToHex length 0 ++ [tab]
        ++ u32ToHex typecode.toUInt32 0 ++ [newline])
    | _ => none

/-- The next device of the list in `line_buf`. -/
def listdevNewLine (s : Tapcp) : Option (Tapcp × Bool) :=
  match cslIterNext s.csl with
  | none => none
  | some (csl, none) => some ({ s with csl }, false)
  | some (csl, some payload) =>
    match listdevLine (cstr csl.key) payload with
    | none => none
    | some line => (s.lineBuf.put line).map fun lineBuf => ({ s with csl, lineBuf }, true)

/-- `casper_tapcp_read_listdev_ascii` -/
def readListdevAscii (s : Tapcp) (bytes : Nat) : Option (Tapcp × ReadOut) :=
  if s.lidx = -1 then
    match cslIterInit s.csl env.coreInfo with
    | none => none
    | some csl => readLinesOf (fun _ => true) listdevNewLine { s with csl, lidx := 0 } bytes
  else readLinesOf (fun _ => true) listdevNewLine s bytes

/--
`casper_tapcp_read_flash_bytes_binary`.  `flash_read` hands `len` to `send_spi`, which takes it as
an unsigned number, and returns it.
-/
def readFlashBytesBinary (s : Tapcp) (bytes : Nat) : Tapcp × ReadOut :=
  let len : Int := if s.nleft > bytes then bytes else s.nleft
  if len = 0 then (s, ⟨0, []⟩)
  else
    ({ s with
        nleft := s.nleft - len
        ptr := s.ptr + ofInt32 len
        spi := s.spi ++ [.tftpBuf (ofInt32 len)] },
     ⟨len, (List.range (ofInt32 len).toNat).map fun i => env.flash (s.ptr + UInt32.ofNat i)⟩)

/-- The loop of `casper_tapcp_read_mem_bytes_binary`; `n` is `bytes - len`. -/
def memBytesLoop : Nat → Tapcp → Tapcp × List UInt8
  | 0, s => (s, [])
  | n + 1, s =>
    if s.nleft > 0 then
      let (s', rest) := memBytesLoop n { s with ptr := s.ptr + 1, nleft := s.nleft - 1 }
      (s', env.load8 s.ptr :: rest)
    else (s, [])

/-- `casper_tapcp_read_mem_bytes_binary` -/
def readMemBytesBinary (s : Tapcp) (bytes : Nat) : Tapcp × ReadOut :=
  let (s, out) := memBytesLoop env bytes s
  (s, ⟨out.length, out⟩)

/-- The data of a line of `casper_tapcp_read_mem_bytes_ascii` from byte `16 - k` of the line on. -/
def memLineBytes : Nat → Tapcp → Tapcp × List UInt8
  | 0, s => (s, [])
  | k + 1, s =>
    let i := 16 - (k + 1)
    let digits := u8ToHex (env.load32 s.ptr).toUInt8 0x11
    let s := { s with ptr := s.ptr + 1, nleft := s.nleft - 1 }
    let text := digits ++ if i % 4 = 3 ∧ i ≠ 15 then [0x20] else []
    if s.nleft = 0 then (s, text)
    else
      let (s, rest) := memLineBytes k s
      (s, text ++ rest)

/-- The label of the next line of a dump. -/
def dumpLabel (u32 : UInt32) : List UInt8 := u32ToHex u32 1 ++ [colon, 0x20]

/-- A line of a dump in `line_buf`; `data` reads and formats what it shows. -/
def dumpNewLine (data : Tapcp → Tapcp × List UInt8) (s : Tapcp) : Option (Tapcp × Bool) :=
  let label := dumpLabel s.u32
  let (s, text) := data { s with u32 := s.u32 + 16 }
  (s.lineBuf.put (label ++ text ++ [newline])).map fun lineBuf => ({ s with lineBuf }, true)

/-- `casper_tapcp_read_mem_bytes_ascii` -/
def readMemBytesAscii (s : Tapcp) (bytes : Nat) : Option (Tapcp × ReadOut) :=
  readLinesOf (fun s => s.nleft > 0) (dumpNewLine (memLineBytes env 16)) s bytes

/-- `(word >> shift) & 0xff` -/
def wordByte (word shift : UInt32) : UInt8 := (word >>> shift).toUInt8

/-- The loop of `casper_tapcp_read_fpga_words_binary`; `n` is `bytes - len`. -/
def fpgaWordsLoop : Nat → Tapcp → Tapcp × List UInt8
  | 0, s => (s, [])
  | n + 1, s =>
    if s.nleft > 0 then
      let nleft := s.nleft - 1
      let s := { s with nleft }
      if nleft % 4 = 3 then
        let readWord := env.load32 s.ptr
        let (s', rest) := fpgaWordsLoop n
          { s with readWord, ptr := s.ptr + 4, bus := s.bus ++ [.read s.ptr] }
        (s', wordByte readWord 24 :: rest)
      else
        let shift := if nleft % 4 = 2 then 16 else if nleft % 4 = 1 then 8 else 0
        let (s', rest) := fpgaWordsLoop n s
        (s', wordByte s.readWord shift :: rest)
    else (s, [])

/-- `casper_tapcp_read_fpga_words_binary` -/
def readFpgaWordsBinary (s : Tapcp) (bytes : Nat) : Tapcp × ReadOut :=
  let (s, out) := fpgaWordsLoop env bytes s
  (s, ⟨out.length, out⟩)

/-- The data of a line of `casper_tapcp_read_fpga_words_ascii` from word `4 - k` of the line on. -/
def fpgaLineWords : Nat → Tapcp → Tapcp × List UInt8
  | 0, s => (s, [])
  | k + 1, s =>
    let i := 4 - (k + 1)
    let digits := u32ToHex (env.load32 s.ptr) 1
    let s := { s with ptr := s.ptr + 4, nleft := s.nleft - 4, bus := s.bus ++ [.read s.ptr] }
    let text := (if i > 0 then [0x20] else []) ++ digits
    if s.nleft = 0 then (s, text)
    else
      let (s, rest) := fpgaLineWords k s
      (s, text ++ rest)

/-- `casper_tapcp_read_fpga_words_ascii` -/
def readFpgaWordsAscii (s : Tapcp) (bytes : Nat) : Option (Tapcp × ReadOut) :=
  readLinesOf (fun s => s.nleft > 0) (dumpNewLine (fpgaLineWords env 4)) s bytes

/-- The `n` bytes from a pointer into `spi_buf` on; behind the buffer there is other memory. -/
def spiBytes (s : Tapcp) (n : Nat) : List UInt8 :=
  (List.range n).map fun i =>
    (s.spiBuf[(s.ptr - env.spiBufAddr).toNat + i]?).getD (env.load8 (s.ptr + UInt32.ofNat i))

/-- `state->nleft < SPI_BUF_LEN ? state->nleft : SPI_BUF_LEN` as the unsigned `state->u32`. -/
def spiRefill (nleft : Int) : UInt32 := ofInt32 (if nleft < spiBufLen then nleft else spiBufLen)

/-- Get more bytes from flash when `spi_buf` is empty and there are more to send. -/
def flashcmdRefill (s : Tapcp) : Tapcp :=
  if s.u32 = 0 ∧ s.nleft ≠ 0 then
    let len := spiRefill s.nleft
    { sendSpiBuf env s len with
      u32 := len, ptr := env.spiBufAddr, spi := s.spi ++ [.spiBuf len] }
  else s

/-- The loop of `casper_tapcp_read_flashcmd_binary`: the bytes stored, and what is left of
`bytes`. -/
def flashcmdLoop (s : Tapcp) (bytes : Nat) : Tapcp × List UInt8 × Nat :=
  if _h : s.u32 ≠ 0 ∧ 0 < bytes then
    let n := if bytes < s.u32.toNat then bytes else s.u32.toNat
    let sent := { s with
      ptr := s.ptr + UInt32.ofNat n
      u32 := s.u32 - UInt32.ofNat n
      nleft := wrap32 (s.nleft - n) }
    let (s', rest, left) := flashcmdLoop (flashcmdRefill env sent) (bytes - n)
    (s', spiBytes env s n ++ rest, left)
  else (s, [], bytes)
termination_by bytes
decreasing_by
  have hpos : 0 < s.u32.toNat := Nat.pos_of_ne_zero fun he => _h.1 (UInt32.toNat_inj.mp he)
  split <;> omega

/-- `casper_tapcp_read_flashcmd_binary` -/
def readFlashcmdBinary (s : Tapcp) (bytes : Nat) : Tapcp × ReadOut :=
  let (s, out, left) := flashcmdLoop env s bytes
  -- `bytes` has been counted down in the loop, so this compares with the room left
  let s := if out.length < left then { s with mosi := [], spi := s.spi ++ [.close] } else s
  (s, ⟨out.length, out⟩)

/-- A call of the installed read callback. -/
def callRead (s : Tapcp) (bytes : Nat) : Option (Tapcp × ReadOut) :=
  match s.readFn with
  | .error => some (readError s)
  | .help => some (readHelp env s bytes)
  | .temp => some (readTemp env s bytes)
  | .listdevAscii => readListdevAscii env s bytes
  | .flashBytesBinary => some (readFlashBytesBinary env s bytes)
  | .memBytesBinary => some (readMemBytesBinary env s bytes)
  | .memBytesAscii => readMemBytesAscii env s bytes
  | .fpgaWordsBinary => some (readFpgaWordsBinary env s bytes)
  | .fpgaWordsAscii => readFpgaWordsAscii env s bytes
  | .flashcmdBinary => some (readFlashcmdBinary env s bytes)

end MlibDevel.Jam
