import MlibDevel.Jam.CslIter
import MlibDevel.Jam.TftpServer

/-!
# Requests to the TFTP server

A request has a file name and a mode, each with a zero behind it.  The server finds them wherever
the packet is cut into buffers, and opens the file (`recv_request`).
-/

namespace MlibDevel.Jam

variable {H σ : Type}

/-- A request for a file, in any buffers of which the first has the opcode -/
structure IsRequest (p : Pbuf) (opcode : UInt16) (fname mode : List UInt8) : Prop where
  opcode_eq : ntohsAt (p.headD []) 0 = some opcode
  bytes : ∃ rest, p.flatten = be16 opcode ++ (fname ++ 0 :: (mode ++ 0 :: rest))
  fname_le : fname.length ≤ tftpMaxFilenameLen
  mode_le : mode.length ≤ tftpMaxModeLen
  fname_ne : 0 ∉ fname
  mode_ne : 0 ∉ mode

/-- The end of a string in a packet -/
theorem memfindNul_eq {p : Pbuf} {start : Nat} {str rest : List UInt8} (h : 0 ∉ str)
    (hp : p.flatten.drop start = str ++ 0 :: rest) : p.memfindNul start = start + str.length := by
  have hfind : (str ++ 0 :: rest).findIdx? (· = 0) = some str.length := by
    rw [List.findIdx?_append, List.findIdx?_eq_none_iff.mpr, List.findIdx?_cons]
    · simp
    · intro c hc
      exact decide_eq_false fun heq => h (heq ▸ hc)
  rw [Pbuf.memfindNul, hp, hfind]

/-- A string in a packet -/
theorem cstr_copyPartial {p : Pbuf} {start : Nat} {str rest : List UInt8} (h : 0 ∉ str)
    (hp : p.flatten.drop start = str ++ 0 :: rest) :
    cstr (p.copyPartial (str.length + 1) start) = str := by
  have htake : (str ++ 0 :: rest).take (str.length + 1) = str ++ 0 :: [] := by
    rw [List.take_append, Nat.add_sub_cancel_left, List.take_of_length_le (Nat.le_succ _)]
    rfl
  rw [Pbuf.copyPartial, hp, htake, cstr_append_zero, cstr_eq_self h]

/-- **A request** to a server without a connection opens the file, and starts to read or write
it. -/
theorem recv_request {ctx : TftpContext H σ} {s : TftpState H} {app app₁ : σ} {h : H} {p : Pbuf}
    {opcode : UInt16} {fname mode : List UInt8} (write : Bool) (addr : UInt32) (port : UInt16)
    (ha : s.addr = 0) (hp : s.port = 0) (hreq : IsRequest p opcode fname mode)
    (hopcode : opcode = if write then tftpWrq else tftpRrq) (hhandle : s.handle = none)
    (hopen : ctx.open app fname mode write = (app₁, some h)) :
    recv ctx s app p addr port = some
      (let s := { s with
        lastPkt := s.timer, retries := 0, handle := some h, blknum := 1, addr, port
        modeWrite := write }
      let opened := Event.opened fname mode write (some h)
      if write then ⟨s, app₁, [opened, .ack addr port 0]⟩
      else { sendData ctx s app₁ h with events := opened :: (sendData ctx s app₁ h).events }) := by
  obtain ⟨rest, hbytes⟩ := hreq.bytes
  have hname : p.flatten.drop 2 = fname ++ 0 :: (mode ++ 0 :: rest) := by
    rw [hbytes, List.drop_left' (length_be16 _)]
  have hmode : p.flatten.drop (2 + fname.length + 1) = mode ++ 0 :: rest := by
    rw [show 2 + fname.length + 1 = 2 + (fname.length + 1) by omega, ← List.drop_drop, hname,
      List.drop_append, List.drop_of_length_le (Nat.le_succ _), Nat.add_sub_cancel_left]
    rfl
  have hstranger : s.isStranger addr port = false := by
    simp [TftpState.isStranger, ha, hp]
  have hend := memfindNul_eq hreq.fname_ne hname
  have hmodeEnd := memfindNul_eq hreq.mode_ne hmode
  have hfname := hreq.fname_le
  have hmodeLen := hreq.mode_le
  rw [tftpMaxFilenameLen] at hfname
  rw [tftpMaxModeLen] at hmodeLen
  have hfield : cstr (p.copyPartial (2 + fname.length - 1) 2) = fname := by
    rw [show 2 + fname.length - 1 = fname.length + 1 by omega, cstr_copyPartial hreq.fname_ne hname]
  have hfield' : cstr (p.copyPartial (2 + fname.length + 1 + mode.length - (2 + fname.length))
      (2 + fname.length + 1)) = mode := by
    rw [show 2 + fname.length + 1 + mode.length - (2 + fname.length) = mode.length + 1 by omega,
      cstr_copyPartial hreq.mode_ne hmode]
  have hops : tftpWrq ≠ tftpRrq := by decide
  rw [recv, if_neg (by rw [hstranger]; exact Bool.false_ne_true), hreq.opcode_eq, hopcode]
  cases write with
  | false =>
    simp only [Bool.false_eq_true, if_true, if_false, recvRequest, hhandle,
      Option.isSome_none, hend,
      hmodeEnd, hfield, hfield', hopen, tftpMaxFilenameLen, tftpMaxModeLen]
    rw [if_neg (by omega), if_neg (by omega), if_neg (by omega), if_neg (by omega)]
  | true =>
    simp only [if_true, if_neg hops, Bool.false_eq_true, if_false, recvRequest, hhandle,
      Option.isSome_none, hend, hmodeEnd, hfield, hfield', hopen, tftpMaxFilenameLen,
        tftpMaxModeLen]
    rw [if_neg (by omega), if_neg (by omega), if_neg (by omega), if_neg (by omega)]

end MlibDevel.Jam
