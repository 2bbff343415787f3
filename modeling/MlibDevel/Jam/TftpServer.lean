import MlibDevel.Jam.Pbuf

/-!
# The TFTP server (`lwip/src/apps/tftp/tftp_server.c`)

The server keeps one connection.  `recv` handles a datagram, `tftpTmr` a timer tick; both work on
the static `tftp_state` and reach the application through the four callbacks of `tftp_context`.

The application state behind the callbacks is a parameter `σ`, the file handle a parameter `H`.
Everything the server does that can be seen from outside is an `Event`.

The local patch of the `TFTP_DATA` case (`ack it again to get the sender to continue`) is in
`recvData`.

Packet buffers are taken to be available whenever the server asks for one.
-/

namespace MlibDevel.Jam

/-- `enum tftp_error` -/
inductive TftpError
  | fileNotFound | accessViolation | diskFull | illegalOperation
  | unknownTrfrId | fileExists | noSuchUser
  deriving DecidableEq, Repr

/-- The code a `TftpError` is sent as. -/
def TftpError.code : TftpError → UInt16
  | .fileNotFound => 1
  | .accessViolation => 2
  | .diskFull => 3
  | .illegalOperation => 4
  | .unknownTrfrId => 5
  | .fileExists => 6
  | .noSuchUser => 7

/-- `TFTP_MAX_PAYLOAD_SIZE` -/
def tftpMaxPayloadSize : Nat := 512

/-- `TFTP_HEADER_LENGTH` -/
def tftpHeaderLength : Nat := 4

/-- `TFTP_MAX_FILENAME_LEN` (`lwipopts.h`) -/
def tftpMaxFilenameLen : Nat := 128

/-- `TFTP_MAX_MODE_LEN` (`tftp_opts.h`) -/
def tftpMaxModeLen : Nat := 8

/-- `TFTP_MAX_RETRIES` (`lwipopts.h`) -/
def tftpMaxRetries : UInt8 := 3

/-- `TFTP_TIMEOUT_MSECS / TFTP_TIMER_MSECS`: ticks without a packet that are tolerated. -/
def tftpTimeoutTicks : Int := 100 / 50

/-- `TFTP_RRQ` .. `TFTP_ACK` -/
def tftpRrq : UInt16 := 1
@[inherit_doc tftpRrq] def tftpWrq : UInt16 := 2
@[inherit_doc tftpRrq] def tftpData : UInt16 := 3
@[inherit_doc tftpRrq] def tftpAck : UInt16 := 4

/-- `struct tftp_context`: the callbacks, acting on the application state. -/
structure TftpContext (H σ : Type) where
  «open» : σ → List UInt8 → List UInt8 → Bool → σ × Option H
  close : σ → H → σ
  read : σ → H → Nat → σ × Int × List UInt8
  write : σ → H → Pbuf → σ × Int

/-- `struct tftp_state`.  The peer address is the 32-bit IPv4 address; zero is `IP_ANY`. -/
structure TftpState (H : Type) where
  handle : Option H
  lastData : Option (List UInt8)
  addr : UInt32
  port : UInt16
  timer : Int
  lastPkt : Int
  blknum : UInt16
  retries : UInt8
  modeWrite : Bool

/-- What the server does, in order. -/
inductive Event (H : Type)
  /-- `ctx->open(fname, mode, write)` returned `h` -/
  | opened (fname mode : List UInt8) (write : Bool) (h : Option H)
  /-- `ctx->close(h)` -/
  | closed (h : H)
  /-- `ctx->write(h, p)` -/
  | wrote (h : H) (p : Pbuf)
  /-- a `TFTP_ACK` packet sent to the peer -/
  | ack (addr : UInt32) (port : UInt16) (blknum : UInt16)
  /-- a `TFTP_ERROR` packet -/
  | error (addr : UInt32) (port : UInt16) (err : TftpError) (str : String)
  /-- a `TFTP_DATA` packet, header included -/
  | data (addr : UInt32) (port : UInt16) (pkt : List UInt8)
  deriving DecidableEq

/-- Where a call leaves the server and the application, and what it did. -/
structure Outcome (H σ : Type) where
  tftp : TftpState H
  app : σ
  events : List (Event H)

section

variable {H σ : Type} (ctx : TftpContext H σ)

/-- `close_handle`: forget the peer and close the file. -/
def closeHandle (s : TftpState H) (app : σ) : Outcome H σ :=
  let s' := { s with port := 0, addr := 0, lastData := none }
  match s.handle with
  | some h => ⟨{ s' with handle := none }, ctx.close app h, [.closed h]⟩
  | none => ⟨s', app, []⟩

/-- `resend_data` -/
def resendData (s : TftpState H) : List (Event H) :=
  match s.lastData with
  | some pkt => [.data s.addr s.port pkt]
  | none => []

/-- `send_data`: read the next block of the file and send it. -/
def sendData (s : TftpState H) (app : σ) (h : H) : Outcome H σ :=
  let (app, ret, buf) := ctx.read app h tftpMaxPayloadSize
  let header := be16 tftpData ++ be16 s.blknum
  if ret < 0 then
    let failed := Event.error s.addr s.port .accessViolation
      "Error occured while reading the file."
    let out := closeHandle ctx { s with lastData := some (header ++ buf) } app
    { out with events := failed :: out.events }
  else
    let s := { s with lastData := some ((header ++ buf).take (tftpHeaderLength + ret.toNat)) }
    ⟨s, app, resendData s⟩

/--
The `TFTP_RRQ` and `TFTP_WRQ` case of `recv`.  `none` is a copy past the end of `filename` or
`mode`: the two length checks let through a string as long as the whole array, whose terminator
then does not fit.
-/
def recvRequest (s : TftpState H) (app : σ) (p : Pbuf) (addr : UInt32) (port : UInt16)
    (write : Bool) : Option (Outcome H σ) :=
  let fail (err : TftpError) (str : String) : Option (Outcome H σ) :=
    some ⟨s, app, [.error addr port err str]⟩
  if s.handle.isSome then
    fail .accessViolation "Only one connection at a time is supported"
  else
    let filenameEnd := p.memfindNul 2
    if filenameEnd - 2 > tftpMaxFilenameLen + 1 then
      fail .accessViolation "Filename too long/not NULL terminated"
    else if filenameEnd - 1 > tftpMaxFilenameLen + 1 then none
    else
      let modeEnd := p.memfindNul (filenameEnd + 1)
      if modeEnd - (filenameEnd + 1) > tftpMaxModeLen + 1 then
        fail .accessViolation "Mode too long/not NULL terminated"
      else if modeEnd - filenameEnd > tftpMaxModeLen + 1 then none
      else
        let filename := cstr (p.copyPartial (filenameEnd - 1) 2)
        let mode := cstr (p.copyPartial (modeEnd - filenameEnd) (filenameEnd + 1))
        let (app, handle) := ctx.open app filename mode write
        let s := { s with handle, blknum := 1 }
        let opened := Event.opened filename mode write handle
        match handle with
        | none => some ⟨s, app, [opened, .error addr port .fileNotFound
            "Unable to open requested file."]⟩
        | some h =>
          if write then
            let s := { s with addr, port, modeWrite := true }
            some ⟨s, app, [opened, .ack s.addr s.port 0]⟩
          else
            let out := sendData ctx { s with addr, port, modeWrite := false } app h
            some { out with events := opened :: out.events }

/--
The part of the `TFTP_DATA` case that writes a block.  The block number is compared with
`tftp_state.blknum - 1`, which C computes as an `int`: it is -1, and equal to no block number, when
`tftp_state.blknum` is 0.
-/
def writeBlock (s : TftpState H) (app : σ) (h : H) (p : Pbuf) (addr : UInt32) (port : UInt16)
    (blknum : UInt16) : Outcome H σ :=
  if (blknum.toNat : Int) = (s.blknum.toNat : Int) - 1 then
    -- a duplicate of a block already written: acknowledge it again
    ⟨s, app, [.ack s.addr s.port blknum]⟩
  else
    let (app, ret) := ctx.write app h p
    if ret < 0 then
      let failed := Event.error addr port .accessViolation "error writing file"
      let out := closeHandle ctx s app
      { out with events := .wrote h p :: failed :: out.events }
    else
      ⟨{ s with blknum := blknum + 1 }, app, [.wrote h p, .ack s.addr s.port blknum]⟩

/-- The `TFTP_DATA` case of `recv`.  A block that is not full ends the transfer. -/
def recvData (s : TftpState H) (app : σ) (p : Pbuf) (addr : UInt32) (port : UInt16) :
    Option (Outcome H σ) :=
  match s.handle with
  | none => some ⟨s, app, [.error addr port .accessViolation "No connection"]⟩
  | some h =>
    if !s.modeWrite then
      some ⟨s, app, [.error addr port .accessViolation "Not a write connection"]⟩
    else
      match ntohsAt (p.headD []) 1 with
      | none => none
      | some blknum =>
        let p := p.hide tftpHeaderLength
        let out := writeBlock ctx s app h p addr port blknum
        if p.totLen < tftpMaxPayloadSize then
          let last := closeHandle ctx out.tftp out.app
          some { last with events := out.events ++ last.events }
        else some out

/-- The `TFTP_ACK` case of `recv`. -/
def recvAck (s : TftpState H) (app : σ) (p : Pbuf) (addr : UInt32) (port : UInt16) :
    Option (Outcome H σ) :=
  match s.handle with
  | none => some ⟨s, app, [.error addr port .accessViolation "No connection"]⟩
  | some h =>
    if s.modeWrite then
      some ⟨s, app, [.error addr port .accessViolation "Not a read connection"]⟩
    else
      match ntohsAt (p.headD []) 1 with
      | none => none
      | some blknum =>
        if blknum ≠ s.blknum then
          some ⟨s, app, [.error addr port .unknownTrfrId "Wrong block number"]⟩
        else
          let lastpkt := s.lastData.any (·.length ≠ tftpMaxPayloadSize + tftpHeaderLength)
          if !lastpkt then some (sendData ctx { s with blknum := s.blknum + 1 } app h)
          else some (closeHandle ctx s app)

/-- Whether a datagram comes from someone else than the peer of the open connection. -/
def TftpState.isStranger (s : TftpState H) (addr : UInt32) (port : UInt16) : Bool :=
  (s.port ≠ 0 && port ≠ s.port) || (s.addr ≠ 0 && s.addr ≠ addr)

/-- `recv`: handle one datagram.  `none` is an access outside a buffer. -/
def recv (s : TftpState H) (app : σ) (p : Pbuf) (addr : UInt32) (port : UInt16) :
    Option (Outcome H σ) :=
  if s.isStranger addr port then
    some ⟨s, app, [.error addr port .accessViolation
      "Only one connection at a time is supported"]⟩
  else
    match ntohsAt (p.headD []) 0 with
    | none => none
    | some opcode =>
      let s := { s with lastPkt := s.timer, retries := 0 }
      if opcode = tftpRrq then recvRequest ctx s app p addr port false
      else if opcode = tftpWrq then recvRequest ctx s app p addr port true
      else if opcode = tftpData then recvData ctx s app p addr port
      else if opcode = tftpAck then recvAck ctx s app p addr port
      else some ⟨s, app, [.error addr port .illegalOperation "Unknown operation"]⟩

/-- `tftp_tmr`: a timer tick. -/
def tftpTmr (s : TftpState H) (app : σ) : Outcome H σ :=
  let s := { s with timer := s.timer + 1 }
  if s.handle.isNone then ⟨s, app, []⟩
  else if s.timer - s.lastPkt > tftpTimeoutTicks then
    if s.lastData.isSome && s.retries < tftpMaxRetries then
      ⟨{ s with retries := s.retries + 1 }, app, resendData s⟩
    else closeHandle ctx s app
  else ⟨s, app, []⟩

end

end MlibDevel.Jam
