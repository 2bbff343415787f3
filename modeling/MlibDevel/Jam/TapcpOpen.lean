import MlibDevel.Jam.TapcpWrite

/-!
# TAPCP: opening a file (`casper_tftp.c`, `casper_tapcp.c`, `casper_devcsl.c`)

`tftpOpen` is the `open` callback of the TFTP server.  It picks one of the `casper_tapcp_open_*`
functions by the file name; these parse the rest of the name, check it, set up the state of the
transfer and install the callback for its data.

The result is the new state and whether a handle is returned; `none` is a read outside the
`core_info` data or a store outside `spi_buf`.
-/

namespace MlibDevel.Jam

open Lib

/-! ## Devices -/

/-- `FPGA_BASEADDR` (`xparameters.h`) -/
def fpgaBaseaddr : UInt32 := 0x44A00000

/-- `FPGA_HIGHADDR` -/
def fpgaHighaddr : UInt32 := 0x44AFFFFF

/-- `FPGA_NBYTES` -/
def fpgaNbytes : UInt32 := fpgaHighaddr - fpgaBaseaddr + 1

/-- `struct casper_dev_info` -/
structure CasperDevInfo where
  offset : UInt32
  length : UInt32
  typecode : UInt8
  deriving DecidableEq, Repr

/-- The payload of an entry of `core_info`. -/
def devInfo (payload : List UInt8) : Option CasperDevInfo :=
  match payloadWord payload with
  | none => none
  | some (offset, payload) =>
    match payloadWord payload with
    | some (length, typecode :: _) => some { offset, length, typecode }
    | _ => none

variable (env : Env)

/--
`casper_find_dev`: the address of a device, zero when it is not found, and its record when there is
one.
-/
def casperFindDev (name : List UInt8) : Option (UInt32 × Option CasperDevInfo) :=
  match env.coreInfo with
  | c₀ :: c₁ :: _ =>
    if c₀ = 0 ∨ c₁ = 0 then some (0, none)
    else
      match cslFindKey (some env.coreInfo) name with
      | none => none
      | some none => some (0, none)
      | some (some payload) =>
        match devInfo payload with
        | none => none
        | some info => some (info.offset + fpgaBaseaddr, some info)
  | _ => none

/-! ## Open helpers -/

/-- `casper_tapcp_open_help` -/
def openHelp (s : Tapcp) : Tapcp × Bool :=
  let nleft : Int := env.tapcpHelpMsg.length
  ({ s with ptr := env.helpAddr, nleft, readFn := .help }, true)

/-- `casper_tapcp_open_temp` -/
def openTemp (s : Tapcp) : Tapcp × Bool := ({ s with readFn := .temp }, true)

/-- `casper_tapcp_open_listdev` -/
def openListdev (s : Tapcp) : Tapcp × Bool :=
  if s.binary then
    let nleft : Int := env.coreInfoSize.toNat + 2
    ({ s with ptr := env.coreInfoAddr - 2, nleft, readFn := .memBytesBinary }, true)
  else ({ s with ptr := env.coreInfoAddr, lidx := -1, readFn := .listdevAscii }, true)

/-- `casper_tapcp_open_progdev` -/
def openProgdev (s : Tapcp) : Tapcp × Bool := ({ s with writeFn := .progdev }, true)

/--
The numbers of a "command line" `OFFSET[.LENGTH]`.  A client's length is ignored on writes; `len` is
the length when there is none.
-/
def cmdFields (write : Bool) (p : List UInt8) (len : UInt32) : UInt32 × UInt32 :=
  let (off, p) := hexToU32 p 0
  if !write && deref p ≠ 0 then (off, (hexToU32 p.tail len).1) else (off, len)

/-- `casper_tapcp_open_flash` -/
def openFlash (s : Tapcp) (fname : List UInt8) : Tapcp × Bool :=
  if !s.binary then (s, false)
  else
    let p := fname.drop (ascii "/flash.").length
    if deref p = 0 then (s, false)
    else
      let (off, len) := cmdFields s.write p 0
      let off := off <<< 2
      let len := len <<< 2
      if s.write && off.toNat % flashSectorSize ≠ 0 then (s, false)
      else
        let s := { s with ptr := off, nleft := toInt32 len }
        if !s.write then ({ s with readFn := .flashBytesBinary }, true)
        else ({ s with u32 := 0, writeFn := .flashWordsBinary }, true)

/-- A flash file opened for a write begins with a sector. -/
theorem openFlash_write {s s₀ : Tapcp} {fname : List UInt8} (hwrite : s.write = true)
    (h : openFlash s fname = (s₀, true)) :
    s₀.ptr.toNat % flashSectorSize = 0 ∧ s₀.u32 = 0 ∧ s₀.writeFn = .flashWordsBinary := by
  unfold openFlash at h
  rw [hwrite] at h
  split at h
  · cases h
  · dsimp only at h
    split at h
    · cases h
    · split at h
      · cases h
      · next haligned =>
        cases h
        exact ⟨by simpa using haligned, rfl, rfl⟩

/-- The end of the open helpers for FPGA words: install the callback. -/
def openWords (s : Tapcp) : Tapcp :=
  if !s.write then
    if s.binary then { s with readFn := .fpgaWordsBinary }
    else { s with lidx := 0, u32 := 0, readFn := .fpgaWordsAscii }
  else if s.binary then { s with u32 := 0, writeFn := .fpgaWordsBinary }
  else { s with lidx := 0, u32 := 0, writeFn := .fpgaWordsAscii }

/-- The device name of a file name, and what follows the dot after it. -/
def devFields (fname : List UInt8) : List UInt8 × List UInt8 :=
  let fname := if (ascii "/dev/").isPrefixOf fname then fname.drop (ascii "/dev/").length else fname
  let name := fname.takeWhile (· ≠ 0x2e)
  (name, (fname.drop name.length).tail)

/-- `casper_tapcp_open_dev` -/
def openDev (s : Tapcp) (fname : List UInt8) : Option (Tapcp × Bool) :=
  let (name, p) := devFields fname
  match casperFindDev env name with
  | none => none
  | some (ptr, none) => some ({ s with ptr }, false)
  | some (ptr, some info) =>
    let s := { s with ptr }
    if ptr = 0 then some (s, false)
    else if s.write && info.offset &&& 1 ≠ 0 then some (s, false)
    else
      let (off, len) := cmdFields s.write p 0
      let len := if len = 0 then (info.length >>> 2) - off else len
      if len = 0 then some (s, false)
      else if !s.write && off + len > info.length >>> 2 then some (s, false)
      else some (openWords { s with ptr := ptr + (off <<< 2), nleft := toInt32 (len <<< 2) }, true)

/-- `casper_tapcp_open_mem` after the prefix of the file name, which says whether it is `/fpga.`. -/
def openMemAt (fpga : Bool) (s : Tapcp) (p : List UInt8) : Tapcp × Bool :=
  if deref p = 0 then (s, false)
  else
    let (off, len) := cmdFields s.write p 1
    let off := off &&& ~~~3
    let len := (len + 3) &&& ~~~3
    if !s.write && (len = 0 || (fpga && off + len > fpgaNbytes)) then (s, false)
    else
      let baseaddr := if fpga then fpgaBaseaddr else 0
      let nleft := toInt32 (if s.write then fpgaNbytes - off else len)
      let s := { s with ptr := baseaddr + off, nleft }
      if !s.write && !fpga then
        if s.binary then ({ s with readFn := .memBytesBinary }, true)
        else ({ s with lidx := 0, u32 := 0, readFn := .memBytesAscii }, true)
      else (openWords s, true)

/-- `casper_tapcp_open_mem` -/
def openMem (s : Tapcp) (fname : List UInt8) : Tapcp × Bool :=
  if (ascii "/fpga.").isPrefixOf fname then openMemAt true s (fname.drop (ascii "/fpga.").length)
  else if !s.write && (ascii "/cpu.").isPrefixOf fname then
    openMemAt false s (fname.drop (ascii "/cpu.").length)
  else (s, false)

/-- `LEN` and `CMD` of a file name `/flashcmd.…`; `len` is the length when there is none. -/
def flashcmdFields (fname : List UInt8) (len : UInt32) : UInt32 × List UInt8 :=
  let p := if (ascii "/flashcmd.").isPrefixOf fname then
    fname.drop (ascii "/flashcmd.").length else fname
  let (len, p) := hexToU32 p len
  (len, if deref p = 0x2e then p.tail else p)

/--
`casper_tapcp_open_flashcmd`.  Without `LEN` the value of `nleft` stays.  A command that does not
fit in `spi_buf` is an error of the model.
-/
def openFlashcmd (s : Tapcp) (fname : List UInt8) : Option (Tapcp × Bool) :=
  if s.write then some (s, false)
  else
    let (len, p) := flashcmdFields fname (ofInt32 s.nleft)
    let nbytes := (cstr p).length / 2
    if spiBufLen < nbytes then none
    else
      let u32 := UInt32.ofNat nbytes
      let spiBuf := hexToU8 nbytes p ++ s.spiBuf.drop nbytes
      let s := sendSpiBuf env { s with nleft := toInt32 (len + u32), u32, spiBuf } u32
      let s := { s with ptr := env.spiBufAddr }
      if s.binary then some ({ s with readFn := .flashcmdBinary }, true)
      else some ({ s with mosi := [], spi := s.spi ++ [.close] }, false)

/-! ## The callbacks of the server -/

/-- What `casper_tftp_open` sets before it looks at the file name. -/
def tftpBegin (s : Tapcp) (mode : List UInt8) (write : Bool) : Tapcp :=
  { s with binary := deref mode = 0x6f, write, readFn := .error, writeFn := .error }

/-- `casper_tftp_open` -/
def tftpOpen (s : Tapcp) (fname mode : List UInt8) (write : Bool) : Option (Tapcp × Bool) :=
  let s := tftpBegin s mode write
  if fname = ascii "/help" ∧ !write then some (openHelp env s)
  else if fname = ascii "/listdev" ∧ !write then some (openListdev env s)
  else if fname = ascii "/temp" ∧ !write then some (openTemp s)
  else if (ascii "/fpga.").isPrefixOf fname then some (openMem s fname)
  else if (ascii "/cpu.").isPrefixOf fname ∧ !write then some (openMem s fname)
  else if fname = ascii "/progdev" ∧ write then some (openProgdev s)
  else if (ascii "/flash.").isPrefixOf fname then some (openFlash s fname)
  else if (ascii "/flashcmd.").isPrefixOf fname then openFlashcmd env s fname
  else openDev env s fname

/-- `casper_tftp_close` -/
def tftpClose (s : Tapcp) : Tapcp :=
  { s with readFn := .error, writeFn := .error, ptr := 0, nleft := 0 }

/-- A call of the read or the write callback of an open file. -/
inductive Call
  | read (bytes : Nat)
  | write (pbuf : Pbuf)

/-- One call after another.  A run ends at an access outside a static buffer or with a reboot. -/
def runCalls : List Call → Tapcp → Option Tapcp
  | [], s => some s
  | .read bytes :: calls, s =>
    match callRead env s bytes with
    | none => none
    | some (s, _) => runCalls calls s
  | .write pbuf :: calls, s =>
    match callWrite env s pbuf with
    | .ret s _ => runCalls calls s
    | _ => none

/-- What every call preserves holds after a run. -/
theorem runCalls_invariant {P : Tapcp → Prop}
    (hread : ∀ s bytes s' out, P s → callRead env s bytes = some (s', out) → P s')
    (hwrite : ∀ s pbuf s' n, P s → callWrite env s pbuf = .ret s' n → P s') :
    ∀ (calls : List Call) {s s' : Tapcp}, P s → runCalls env calls s = some s' → P s'
  | [], s, s', hs, h => by
    cases h
    exact hs
  | .read bytes :: calls, s, s', hs, h => by
    rw [runCalls] at h
    split at h
    · cases h
    · next s₁ out hcall => exact runCalls_invariant hread hwrite calls (hread s _ _ _ hs hcall) h
  | .write pbuf :: calls, s, s', hs, h => by
    rw [runCalls] at h
    split at h
    · next s₁ n hcall => exact runCalls_invariant hread hwrite calls (hwrite s _ _ _ hs hcall) h
    · cases h

end MlibDevel.Jam
