import MlibDevel.Jam.TftpRequest
import MlibDevel.Jam.TftpSession
import MlibDevel.Lib.StopAndWait
import Mathlib.Logic.Relation

/-!
# Reading a file from the TFTP server

A client reads a file over a network that keeps the order of the packets, and may lose them or
deliver them several times.  In between the timer of the server runs, and other clients send
whatever they like.

Each step of the two is one of `StopAndWait` or none (`Reading.step`).  So the client has a prefix
of the file at any time, and the whole file when it has seen the last block (`downloads`).
-/

namespace MlibDevel.Jam

open Lib

variable {H σ : Type}

/-! ## Files -/

/-- A file that is read in these blocks: full ones, and a shorter last one -/
inductive FileOf (ctx : TftpContext H σ) (h : H) : σ → List (List UInt8) → Prop
  | last {app app' : σ} {ret : Int} {block : List UInt8}
      (hread : ctx.read app h tftpMaxPayloadSize = (app', ret, block)) (hret : ret = block.length)
      (hshort : block.length < tftpMaxPayloadSize) : FileOf ctx h app [block]
  | more {app app' : σ} {ret : Int} {block : List UInt8} {blocks : List (List UInt8)}
      (hread : ctx.read app h tftpMaxPayloadSize = (app', ret, block)) (hret : ret = block.length)
      (hfull : block.length = tftpMaxPayloadSize) (hrest : FileOf ctx h app' blocks) :
      FileOf ctx h app (block :: blocks)

/-- Full blocks, and a shorter last one -/
def InBlocks (blocks : List (List UInt8)) : Prop :=
  ∀ i block, blocks[i]? = some block → block.length ≤ tftpMaxPayloadSize
    ∧ (block.length < tftpMaxPayloadSize ↔ i + 1 = blocks.length)

/-- A `TFTP_DATA` packet -/
def dataPacket (n : UInt16) (block : List UInt8) : List UInt8 := be16 tftpData ++ be16 n ++ block

/-- Block `k` of a file under its number -/
def filePacket (blocks : List (List UInt8)) (k : Nat) : List UInt8 :=
  dataPacket (UInt16.ofNat k) (blocks.getD (k - 1) [])

section File

variable {ctx : TftpContext H σ} {h : H} {app : σ} {blocks : List (List UInt8)}

theorem FileOf.ne_nil (hfile : FileOf ctx h app blocks) : blocks ≠ [] := by
  cases hfile <;> exact List.cons_ne_nil _ _

theorem FileOf.inBlocks (hfile : FileOf ctx h app blocks) : InBlocks blocks := by
  induction hfile with
  | last _ _ hshort =>
    intro i block hblock
    cases i with
    | zero =>
      obtain rfl := Option.some.inj hblock
      exact ⟨Nat.le_of_lt hshort, iff_of_true hshort rfl⟩
    | succ i => cases hblock
  | more _ _ hfull hrest ih =>
    intro i block hblock
    rw [List.length_cons]
    cases i with
    | zero =>
      obtain rfl := Option.some.inj hblock
      have hpos := List.length_pos_iff.mpr hrest.ne_nil
      omega
    | succ i =>
      have := ih i block hblock
      omega

/-- **A callback that serves its data in blocks** has a file. -/
theorem fileOf_of_serves (data : List UInt8) (At : σ → Nat → Prop)
    (hserves : ∀ {app pos}, At app pos → ∃ app' block,
      ctx.read app h tftpMaxPayloadSize = (app', (block.length : Int), block) ∧
      block = (data.drop pos).take tftpMaxPayloadSize ∧
      (pos + tftpMaxPayloadSize ≤ data.length → At app' (pos + tftpMaxPayloadSize))) {pos : Nat}
    (hat : At app pos) (hpos : pos ≤ data.length) :
    ∃ blocks, FileOf ctx h app blocks ∧ blocks.flatten = data.drop pos := by
  induction hk : data.length - pos using Nat.strong_induction_on generalizing app pos with
  | h k ih =>
    obtain ⟨app', block, hread, hblock, hat'⟩ := hserves hat
    have hlen : block.length = min tftpMaxPayloadSize (data.length - pos) := by
      rw [hblock, List.length_take, List.length_drop]
    have hmax : 0 < tftpMaxPayloadSize := by decide
    rcases Nat.lt_or_ge data.length (pos + tftpMaxPayloadSize) with hlast | hmore
    · refine ⟨[block], .last hread rfl (by omega), ?_⟩
      rw [List.flatten_singleton, hblock, List.take_of_length_le]
      rw [List.length_drop]
      omega
    · obtain ⟨blocks, hfile, hflat⟩ := ih (data.length - (pos + tftpMaxPayloadSize)) (by omega)
        (hat' hmore) hmore rfl
      refine ⟨block :: blocks, .more hread rfl (by omega) hfile, ?_⟩
      rw [List.flatten_cons, hflat, hblock, ← List.drop_drop, List.take_append_drop]

/-- What `send_data` does with a file. -/
theorem sendData_file {s : TftpState H} {block : List UInt8}
    (hfile : FileOf ctx h app (block :: blocks)) :
    ∃ app', sendData ctx s app h = ⟨{ s with lastData := some (dataPacket s.blknum block) }, app',
        [.data s.addr s.port (dataPacket s.blknum block)]⟩
      ∧ (blocks ≠ [] → FileOf ctx h app' blocks) := by
  have hsend : ∀ {app' : σ} {ret : Int}, ctx.read app h tftpMaxPayloadSize = (app', ret, block) →
      ret = block.length → sendData ctx s app h
        = ⟨{ s with lastData := some (dataPacket s.blknum block) }, app',
          [.data s.addr s.port (dataPacket s.blknum block)]⟩ := by
    intro app' ret hread hret
    have hlen : (be16 tftpData ++ be16 s.blknum ++ block).length
      = tftpHeaderLength + block.length := by
      simp only [List.length_append, length_be16, tftpHeaderLength]
    rw [sendData, hread]
    simp only [hret]
    rw [if_neg (by omega), Int.toNat_natCast, ← hlen, List.take_length]
    rfl
  cases hfile with
  | last hread hret _ => exact ⟨_, hsend hread hret, fun hne => absurd rfl hne⟩
  | more hread hret _ hrest => exact ⟨_, hsend hread hret, fun _ => hrest⟩

end File

/-! ## The two parties -/

/-- A client that reads a file: the number it waits for, what it has, and whether it has all -/
structure TftpReader where
  expected : UInt16
  got : List UInt8
  done : Bool

/-- A packet comes to the client.  It acknowledges what it got last. -/
def TftpReader.recv (c : TftpReader) (pkt : List UInt8) : TftpReader × UInt16 :=
  if ntohsAt pkt 1 = some c.expected ∧ c.done = false then
    let payload := pkt.drop tftpHeaderLength
    (⟨c.expected + 1, c.got ++ payload, payload.length < tftpMaxPayloadSize⟩, c.expected)
  else (c, c.expected - 1)

/-- The server, the client, and what is on the way between them, the oldest first.  Errors are left
out: a client that gives up takes no more steps. -/
structure Download (H σ : Type) where
  tftp : TftpState H
  app : σ
  toServer : List UInt16
  toClient : List (List UInt8)
  client : TftpReader

/-- A `TFTP_ACK` packet, with anything behind it and in any buffers -/
def IsAck (p : Pbuf) (n : UInt16) : Prop :=
  ntohsAt (p.headD []) 0 = some tftpAck ∧ ntohsAt (p.headD []) 1 = some n

variable (ctx : TftpContext H σ) (addr : UInt32) (port : UInt16)

/-- What an outcome leaves, and sends to the client -/
def Download.after (d : Download H σ) (out : Outcome H σ) : Download H σ :=
  { d with tftp := out.tftp, app := out.app, toClient := d.toClient ++ dataTo addr port out.events }

/-- One step of the server, the client at `addr` and `port`, or the network.  What is delivered
stays on the way, so that it can be delivered again. -/
inductive DownloadStep : Download H σ → Download H σ → Prop
  /-- Some packets are lost. -/
  | lose {d : Download H σ} {toServer : List UInt16} {toClient : List (List UInt8)}
      (hserver : toServer.Sublist d.toServer) (hclient : toClient.Sublist d.toClient) :
      DownloadStep d { d with toServer, toClient }
  /-- The timer of the server ticks. -/
  | tick {d : Download H σ} : DownloadStep d (d.after addr port (tftpTmr ctx d.tftp d.app))
  /-- An acknowledgement comes to the server. -/
  | ack {d : Download H σ} {n : UInt16} {p : Pbuf} {out : Outcome H σ}
      (hn : d.toServer.head? = some n) (hp : IsAck p n)
      (hrecv : recv ctx d.tftp d.app p addr port = some out) :
      DownloadStep d (d.after addr port out)
  /-- A packet of another client comes to the server. -/
  | other {d : Download H σ} {p : Pbuf} {a : UInt32} {q : UInt16} {out : Outcome H σ} (ha : a ≠ 0)
      (hq : q ≠ 0) (hother : ¬(a = addr ∧ q = port))
      (hrecv : recv ctx d.tftp d.app p a q = some out) :
      DownloadStep d (d.after addr port out)
  /-- A packet comes to the client. -/
  | data {d : Download H σ} {pkt : List UInt8} (hpkt : d.toClient.head? = some pkt) :
      DownloadStep d { d with
        client := (d.client.recv pkt).1, toServer := d.toServer ++ [(d.client.recv pkt).2] }
  /-- The client acknowledges again what it got last. -/
  | again {d : Download H σ} :
      DownloadStep d { d with toServer := d.toServer ++ [d.client.expected - 1] }

/-! ## The protocol -/

/-- The connection of the client: block `k` is being sent. -/
structure Sending (h : H) (blocks : List (List UInt8)) (k : Nat) (s : TftpState H) (app : σ) :
    Prop where
  handle : s.handle = some h
  modeWrite : s.modeWrite = false
  addr_eq : s.addr = addr
  port_eq : s.port = port
  blknum : s.blknum = UInt16.ofNat k
  lastData : s.lastData = some (filePacket blocks k)
  rest : k < blocks.length → FileOf ctx h app (blocks.drop k)

/-- The two parties and the protocol -/
structure Reading (h : H) (blocks : List (List UInt8)) (d : Download H σ) (w : StopAndWait) :
    Prop where
  inv : w.Inv
  sent : 0 < w.sent ∧ w.sent ≤ blocks.length
  toClient : d.toClient = w.data.map (filePacket blocks)
  toServer : d.toServer = w.acks.map UInt16.ofNat
  expected : d.client.expected = UInt16.ofNat w.next
  got : d.client.got = (blocks.take (w.next - 1)).flatten
  done : d.client.done = decide (w.next - 1 = blocks.length)
  server : Sending ctx addr port h blocks w.sent d.tftp d.app ∨ Elsewhere addr port d.tftp

variable {ctx addr port} {h : H} {blocks : List (List UInt8)} {s : TftpState H} {app : σ} {k : Nat}

theorem ofNat_inj_iff (i j : Nat) : UInt16.ofNat i = UInt16.ofNat j ↔ i % 65536 = j % 65536 := by
  rw [← UInt16.toNat_inj, UInt16.toNat_ofNat', UInt16.toNat_ofNat']

theorem ofNat_succ (i : Nat) : UInt16.ofNat (i + 1) = UInt16.ofNat i + 1 := by
  rw [UInt16.ofNat_add]
  rfl

theorem ntohsAt_dataPacket (n : UInt16) (block : List UInt8) :
    ntohsAt (dataPacket n block) 1 = some n :=
  ntohsAt_be16 (be16 tftpData) n block 1 rfl

theorem drop_dataPacket (n : UInt16) (block : List UInt8) :
    (dataPacket n block).drop tftpHeaderLength = block := rfl

/-- What is not in the invariant can change. -/
theorem Sending.of_same {s' : TftpState H} (hs : Sending ctx addr port h blocks k s app)
    (hhandle : s'.handle = s.handle) (hmode : s'.modeWrite = s.modeWrite) (haddr : s'.addr = s.addr)
    (hport : s'.port = s.port) (hnumber : s'.blknum = s.blknum) (hlast : s'.lastData = s.lastData) :
    Sending ctx addr port h blocks k s' app :=
  ⟨hhandle.trans hs.handle, hmode.trans hs.modeWrite, haddr.trans hs.addr_eq,
    hport.trans hs.port_eq, hnumber.trans hs.blknum, hlast.trans hs.lastData, hs.rest⟩

/-- The timer of the server sends the block again, or closes the connection. -/
theorem Sending.tick (hs : Sending ctx addr port h blocks k s app) :
    Sending ctx addr port h blocks k (tftpTmr ctx s app).tftp (tftpTmr ctx s app).app
        ∧ (dataTo addr port (tftpTmr ctx s app).events = []
          ∨ dataTo addr port (tftpTmr ctx s app).events = [filePacket blocks k])
      ∨ Elsewhere addr port (tftpTmr ctx s app).tftp
        ∧ dataTo addr port (tftpTmr ctx s app).events = [] := by
  have hopen : ¬s.handle.isNone = true := by rw [hs.handle]; exact Bool.false_ne_true
  unfold tftpTmr
  dsimp only
  rw [if_neg hopen]
  split
  · split
    · refine .inl ⟨hs.of_same rfl rfl rfl rfl rfl rfl, .inr ?_⟩
      simp [resendData, hs.lastData, dataTo, hs.addr_eq, hs.port_eq]
    · refine .inr ?_
      simp [closeHandle, hs.handle, dataTo, Elsewhere]
  · exact .inl ⟨hs.of_same rfl rfl rfl rfl rfl rfl, .inl rfl⟩

theorem Sending.not_stranger (hs : Sending ctx addr port h blocks k s app) :
    s.isStranger addr port = false := by
  simp [TftpState.isStranger, hs.addr_eq, hs.port_eq]

/-- **An acknowledgement of the block** gets the next one, or ends the connection after the last
one.  Any other one changes nothing. -/
theorem Sending.ack (hs : Sending ctx addr port h blocks k s app) (hpos : 0 < k)
    (hle : k ≤ blocks.length) (hshort : InBlocks blocks) {p : Pbuf} {n : UInt16} (hp : IsAck p n)
    {out : Outcome H σ} (hrecv : recv ctx s app p addr port = some out) :
    (n ≠ UInt16.ofNat k ∧ Sending ctx addr port h blocks k out.tftp out.app
        ∧ dataTo addr port out.events = [])
      ∨ (n = UInt16.ofNat k ∧ Sending ctx addr port h blocks (k + 1) out.tftp out.app
        ∧ k + 1 ≤ blocks.length ∧ dataTo addr port out.events = [filePacket blocks (k + 1)])
      ∨ (n = UInt16.ofNat k ∧ Elsewhere addr port out.tftp ∧ k = blocks.length
        ∧ dataTo addr port out.events = []) := by
  have hblock : blocks[k - 1]? = some blocks[k - 1] := List.getElem?_eq_getElem (by omega)
  have hpacket : filePacket blocks k = dataPacket (UInt16.ofNat k) blocks[k - 1] := by
    rw [filePacket, List.getD_eq_getElem?_getD, hblock]
    rfl
  have hlast : s.lastData = some (dataPacket (UInt16.ofNat k) blocks[k - 1]) := by
    rw [hs.lastData, hpacket]
  have hlength : (dataPacket (UInt16.ofNat k) blocks[k - 1]).length
      = tftpHeaderLength + blocks[k - 1].length := by
    simp only [dataPacket, List.length_append, length_be16, tftpHeaderLength]
  obtain ⟨hmax, hshort⟩ := hshort _ _ hblock
  have hops : tftpAck ≠ tftpRrq ∧ tftpAck ≠ tftpWrq ∧ tftpAck ≠ tftpData := by decide
  rw [recv, if_neg (by rw [hs.not_stranger]; exact Bool.false_ne_true), hp.1] at hrecv
  simp only [if_neg hops.1, if_neg hops.2.1, if_neg hops.2.2, if_true, recvAck, hs.handle,
    hs.modeWrite, hp.2, hs.blknum, hlast, Option.any_some, hlength, Bool.false_eq_true,
    if_false] at hrecv
  split at hrecv
  · next hne =>
    rw [← Option.some.inj hrecv]
    refine .inl ⟨hne, ⟨rfl, rfl, hs.addr_eq, hs.port_eq, rfl, ?_, hs.rest⟩, rfl⟩
    rw [hpacket]
  · next heq =>
    have heq : n = UInt16.ofNat k := not_not.mp heq
    split at hrecv
    · next hfull =>
      -- the block was full, and there is another one
      have hlt : k < blocks.length := by
        rw [Bool.not_eq_true', decide_eq_false_iff_not, not_not] at hfull
        omega
      have hrest := hs.rest hlt
      rw [List.drop_eq_getElem_cons hlt] at hrest
      obtain ⟨app', hsend, hmore⟩ := sendData_file (s := { s with
        handle := some h, lastData := some (dataPacket (UInt16.ofNat k) blocks[k - 1]),
          lastPkt := s.timer
        blknum := UInt16.ofNat k + 1, retries := 0, modeWrite := false }) hrest
      rw [hsend] at hrecv
      have hnext : filePacket blocks (k + 1) = dataPacket (UInt16.ofNat k + 1) blocks[k] := by
        rw [filePacket, Nat.add_sub_cancel, List.getD_eq_getElem?_getD,
          List.getElem?_eq_getElem hlt,
          ofNat_succ]
        rfl
      rw [← Option.some.inj hrecv]
      refine .inr (.inl
        ⟨heq, ⟨rfl, rfl, hs.addr_eq, hs.port_eq, (ofNat_succ k).symm, ?_, fun hlt => ?_⟩,
        hlt, ?_⟩)
      · rw [hnext]
      · exact hmore fun hnil => absurd (List.drop_eq_nil_iff.mp hnil) (by omega)
      · simp [dataTo, hs.addr_eq, hs.port_eq, hnext]
    · next hlast =>
      -- a short block is the last one
      have hend : k = blocks.length := by
        rw [Bool.not_eq_true', decide_eq_false_iff_not] at hlast
        omega
      rw [← Option.some.inj hrecv]
      exact .inr (.inr ⟨heq, .inl ⟨rfl, rfl, rfl⟩, hend, rfl⟩)

section Step

variable {d d' : Download H σ} {w : StopAndWait} (hd : Reading ctx addr port h blocks d w)

include hd

/-- The number of the last block that the client has. -/
theorem Reading.expected_pred : d.client.expected - 1 = UInt16.ofNat (w.next - 1) := by
  have hpos : 0 < w.next := by
    have := hd.inv.next
    have := hd.sent
    omega
  obtain ⟨n, hn⟩ := Nat.exists_eq_succ_of_ne_zero (Nat.pos_iff_ne_zero.mp hpos)
  rw [hd.expected, hn, Nat.succ_sub_one, ofNat_succ, UInt16.add_sub_cancel]

/-- The server goes on, and the protocol does not. -/
theorem Reading.stay {out : Outcome H σ} (hdata : dataTo addr port out.events = [])
    (hserver : Sending ctx addr port h blocks w.sent out.tftp out.app ∨
      Elsewhere addr port out.tftp) : Reading ctx addr port h blocks (d.after addr port out) w := by
  refine ⟨hd.inv, hd.sent, ?_, hd.toServer, hd.expected, hd.got, hd.done, hserver⟩
  show d.toClient ++ _ = _
  rw [hdata, List.append_nil]
  exact hd.toClient

/-- The client acknowledges once more. -/
theorem Reading.again : ∃ w', w.Step 65536 w'
    ∧ Reading ctx addr port h blocks
      { d with toServer := d.toServer ++ [d.client.expected - 1] } w' := by
  have hpos : 0 < w.next := by
    have := hd.inv.next
    have := hd.sent
    omega
  have hstep : w.Step 65536 { w with acks := w.acks ++ [w.next - 1] } :=
    .again (Nat.succ_pred_eq_of_pos hpos)
  refine ⟨_, hstep, hd.inv.step (by decide) hstep, hd.sent, hd.toClient, ?_, hd.expected, hd.got,
    hd.done, hd.server⟩
  show d.toServer ++ _ = _
  rw [hd.expected_pred, hd.toServer, List.map_append]
  rfl

section Blocks

variable (hshort : InBlocks blocks)

include hshort

/-- The next block comes to the client. -/
theorem Reading.receive (hk : w.data.head? = some w.next) :
    Reading ctx addr port h blocks { d with
      client := (d.client.recv (filePacket blocks w.next)).1
      toServer := d.toServer ++ [(d.client.recv (filePacket blocks w.next)).2] }
      { w with next := w.next + 1, acks := w.acks ++ [w.next] } := by
  obtain ⟨-, hnext⟩ := hd.inv.is_next (m := 65536) (by decide) hk rfl
  have hsent := hd.sent
  rw [← hnext] at hsent
  have hlt : w.next - 1 < blocks.length := by omega
  have hdone : d.client.done = false := by
    rw [hd.done, decide_eq_false_iff_not]
    omega
  have hpayload : (filePacket blocks w.next).drop tftpHeaderLength = blocks[w.next - 1] := by
    rw [filePacket, drop_dataPacket, List.getD_eq_getElem?_getD, List.getElem?_eq_getElem hlt]
    rfl
  have hrecv : d.client.recv (filePacket blocks w.next) = (⟨d.client.expected + 1,
      d.client.got ++ blocks[w.next - 1], blocks[w.next - 1].length < tftpMaxPayloadSize⟩,
      d.client.expected) := by
    rw [TftpReader.recv, if_pos ⟨by rw [filePacket, ntohsAt_dataPacket, hd.expected], hdone⟩,
      hpayload]
  have hstep : w.Step 65536 { w with next := w.next + 1, acks := w.acks ++ [w.next] } :=
    .received hk rfl
  refine ⟨hd.inv.step (by decide) hstep, hd.sent, hd.toClient, ?_, ?_, ?_, ?_, hd.server⟩
  · show d.toServer ++ _ = _
    rw [hrecv, hd.toServer, hd.expected, List.map_append]
    rfl
  · rw [hrecv, ofNat_succ, ← hd.expected]
  · show (d.client.recv (filePacket blocks w.next)).1.got = (blocks.take (w.next + 1 - 1)).flatten
    rw [hrecv, hd.got, show w.next + 1 - 1 = w.next - 1 + 1 by omega,
      List.take_succ_eq_append_getElem hlt, List.flatten_append, List.flatten_singleton]
  · show (d.client.recv (filePacket blocks w.next)).1.done = decide (w.next + 1 - 1 = blocks.length)
    have hlast := (hshort (w.next - 1) _ (List.getElem?_eq_getElem hlt)).2
    rw [hrecv, decide_eq_decide, hlast]
    omega

/-- A packet comes to the client: it is the next block, or one that the client has. -/
theorem Reading.data {pkt : List UInt8} (hpkt : d.toClient.head? = some pkt) :
    ∃ w', w.Step 65536 w' ∧ Reading ctx addr port h blocks { d with
      client := (d.client.recv pkt).1, toServer := d.toServer ++ [(d.client.recv pkt).2] } w' := by
  rw [hd.toClient, List.head?_map, Option.map_eq_some_iff] at hpkt
  obtain ⟨k, hk, rfl⟩ := hpkt
  by_cases heq : k % 65536 = w.next % 65536
  · obtain ⟨rfl, -⟩ := hd.inv.is_next (by decide) hk heq
    exact ⟨_, .received hk rfl, hd.receive hshort hk⟩
  · have hrecv : d.client.recv (filePacket blocks k) = (d.client, d.client.expected - 1) := by
      rw [TftpReader.recv, if_neg]
      rintro ⟨hexpected, -⟩
      rw [filePacket, ntohsAt_dataPacket, hd.expected, Option.some.injEq,
        ofNat_inj_iff] at hexpected
      exact heq hexpected
    rw [hrecv]
    exact hd.again

/-- **A step of the two parties** is one of the protocol, or none. -/
theorem Reading.step (haddr : addr ≠ 0) (hport : port ≠ 0)
    (hstep : DownloadStep ctx addr port d d') :
    ∃ w', (w' = w ∨ w.Step 65536 w') ∧ Reading ctx addr port h blocks d' w' := by
  cases hstep with
  | lose hserver hclient =>
    rw [hd.toServer, List.sublist_map_iff] at hserver
    rw [hd.toClient, List.sublist_map_iff] at hclient
    obtain ⟨acks, hacks, rfl⟩ := hserver
    obtain ⟨data, hdata, rfl⟩ := hclient
    have hstep : w.Step 65536 { w with data, acks } := .lose hdata hacks
    exact ⟨_, .inr hstep, hd.inv.step (by decide) hstep, hd.sent, rfl, rfl, hd.expected, hd.got,
      hd.done,
      hd.server⟩
  | tick =>
    rcases hd.server with hserver | helse
    · rcases hserver.tick with ⟨hsending, hnone | hagain⟩ | ⟨helse, hnone⟩
      · exact ⟨w, .inl rfl, hd.stay hnone (.inl hsending)⟩
      · have hstep : w.Step 65536 { w with data := w.data ++ [w.sent] } := .send
        refine ⟨_, .inr hstep, hd.inv.step (by decide) hstep, hd.sent, ?_, hd.toServer, hd.expected,
          hd.got, hd.done, .inl hsending⟩
        show d.toClient ++ _ = _
        rw [hagain, hd.toClient, List.map_append]
        rfl
      · exact ⟨w, .inl rfl, hd.stay hnone (.inr helse)⟩
    · obtain ⟨helse, hsilent⟩ := tftpTmr_elsewhere ctx haddr helse d.app
      exact ⟨w, .inl rfl, hd.stay hsilent.dataTo (.inr helse)⟩
  | @ack n p out hn hp hrecv =>
    rcases hd.server with hserver | helse
    · rcases hserver.ack hd.sent.1 hd.sent.2 hshort hp hrecv with
        ⟨-, hsending, hnone⟩ | ⟨heq, hsending, hle, hdata⟩ | ⟨-, helse, -, hnone⟩
      · exact ⟨w, .inl rfl, hd.stay hnone (.inl hsending)⟩
      · rw [hd.toServer, List.head?_map, Option.map_eq_some_iff] at hn
        obtain ⟨a, ha, rfl⟩ := hn
        have hstep : w.Step 65536 { w with sent := w.sent + 1, data := w.data ++ [w.sent + 1] } :=
          .acked ha ((ofNat_inj_iff _ _).mp heq)
        refine ⟨_, .inr hstep, hd.inv.step (by decide) hstep, ⟨Nat.succ_pos _, hle⟩, ?_,
          hd.toServer,
          hd.expected, hd.got, hd.done, .inl hsending⟩
        show d.toClient ++ _ = _
        rw [hdata, hd.toClient, List.map_append]
        rfl
      · exact ⟨w, .inl rfl, hd.stay hnone (.inr helse)⟩
    · have hrrq : some tftpAck ≠ some tftpRrq := by decide
      have hwrq : some tftpAck ≠ some tftpWrq := by decide
      obtain ⟨helse, hsilent⟩ := recv_own_elsewhere ctx haddr helse (by rw [hp.1]; exact hrrq)
        (by rw [hp.1]; exact hwrq) hrecv
      exact ⟨w, .inl rfl, hd.stay hsilent.dataTo (.inr helse)⟩
  | @other p a q out ha hq hother hrecv =>
    rcases hd.server with hserver | helse
    · have hstranger := recv_stranger ctx (by rw [hserver.addr_eq]; exact haddr)
        (by rw [hserver.port_eq]; exact hport)
        (by rw [hserver.addr_eq, hserver.port_eq]; exact hother) d.app p
      rw [hstranger] at hrecv
      rw [← Option.some.inj hrecv]
      exact ⟨w, .inl rfl, hd.stay rfl (.inl hserver)⟩
    · obtain ⟨helse, hsilent⟩ := recv_elsewhere ctx haddr helse ha hq hother hrecv
      exact ⟨w, .inl rfl, hd.stay hsilent.dataTo (.inr helse)⟩
  | data hpkt =>
    obtain ⟨w', hstep, hd'⟩ := hd.data hshort hpkt
    exact ⟨w', .inr hstep, hd'⟩
  | again =>
    obtain ⟨w', hstep, hd'⟩ := hd.again
    exact ⟨w', .inr hstep, hd'⟩

end Blocks

end Step

/-! ## The request -/

/-- **A read request** opens the file and sends its first block. -/
theorem recv_rrq {p : Pbuf} {fname mode : List UInt8} (hhandle : s.handle = none) (ha : s.addr = 0)
    (hp : s.port = 0) (hreq : IsRequest p tftpRrq fname mode) {app₁ : σ}
    (hopen : ctx.open app fname mode false = (app₁, some h)) (hfile : FileOf ctx h app₁ blocks) :
    ∃ out, recv ctx s app p addr port = some out
      ∧ Sending ctx addr port h blocks 1 out.tftp out.app
      ∧ dataTo addr port out.events = [filePacket blocks 1] := by
  obtain ⟨block, rest, rfl⟩ := List.exists_cons_of_ne_nil hfile.ne_nil
  obtain ⟨app', hsend, hmore⟩ := sendData_file (s := { s with
    lastPkt := s.timer, retries := 0, handle := some h, blknum := 1, addr, port
    modeWrite := false }) hfile
  have hrecv := recv_request false addr port ha hp hreq rfl hhandle hopen
  simp only [Bool.false_eq_true, if_false, hsend] at hrecv
  refine ⟨_, hrecv, ?_, ?_⟩
  · refine ⟨rfl, rfl, rfl, rfl, rfl, rfl, fun hlt => hmore fun hnil => ?_⟩
    rw [hnil] at hlt
    exact absurd hlt (by simp)
  · simp [dataTo, filePacket]

/-! ## Whole downloads -/

/-- The request is answered, and the client waits for the first block. -/
def Download.start (addr : UInt32) (port : UInt16) (out : Outcome H σ) : Download H σ :=
  ⟨out.tftp, out.app, [], dataTo addr port out.events, ⟨1, [], false⟩⟩

/-- The two parties and the network take steps. -/
abbrev DownloadRun (ctx : TftpContext H σ) (addr : UInt32) (port : UInt16) :
    Download H σ → Download H σ → Prop :=
  Relation.ReflTransGen (DownloadStep ctx addr port)

theorem Reading.start {out : Outcome H σ} (hs : Sending ctx addr port h blocks 1 out.tftp out.app)
    (hdata : dataTo addr port out.events = [filePacket blocks 1]) (hne : blocks ≠ []) :
    Reading ctx addr port h blocks (Download.start addr port out) ⟨1, 1, [1], []⟩ := by
  have hpos := List.length_pos_iff.mpr hne
  refine ⟨?_, ⟨Nat.one_pos, hpos⟩, hdata, rfl, rfl, rfl, ?_, .inl hs⟩
  · constructor <;> simp
  · exact (decide_eq_false (Nat.ne_of_lt hpos)).symm

section Run

variable {d d' : Download H σ} {w : StopAndWait}

/-- **Whatever the network does**, the protocol goes on. -/
theorem Reading.run (haddr : addr ≠ 0) (hport : port ≠ 0) (hshort : InBlocks blocks)
    (hd : Reading ctx addr port h blocks d w) (hrun : DownloadRun ctx addr port d d') :
    ∃ w', Reading ctx addr port h blocks d' w' := by
  induction hrun with
  | refl => exact ⟨w, hd⟩
  | tail _ hstep ih =>
    obtain ⟨w', hd'⟩ := ih
    obtain ⟨w'', -, hd''⟩ := hd'.step hshort haddr hport hstep
    exact ⟨w'', hd''⟩

/-- What the client has is a part of the file, or all of it. -/
theorem Reading.got_prefix (hd : Reading ctx addr port h blocks d w) :
    d.client.got <+: blocks.flatten ∧ (d.client.done = true → d.client.got = blocks.flatten) := by
  rw [hd.got, hd.done, decide_eq_true_eq]
  refine ⟨⟨(blocks.drop (w.next - 1)).flatten, ?_⟩, fun hlast => ?_⟩
  · rw [← List.flatten_append, List.take_append_drop]
  · rw [hlast, List.take_length]

end Run

/-- The server has an answer to an acknowledgement. -/
theorem Sending.ack_some (hs : Sending ctx addr port h blocks k s app) {p : Pbuf} {n : UInt16}
    (hp : IsAck p n) : ∃ out, recv ctx s app p addr port = some out := by
  have hops : tftpAck ≠ tftpRrq ∧ tftpAck ≠ tftpWrq ∧ tftpAck ≠ tftpData := by decide
  rw [recv, if_neg (by rw [hs.not_stranger]; exact Bool.false_ne_true), hp.1]
  simp only [if_neg hops.1, if_neg hops.2.1, if_neg hops.2.2, if_true, recvAck, hs.handle,
    hs.modeWrite, hp.2, Bool.false_eq_true, if_false]
  split
  · exact ⟨_, rfl⟩
  · split <;> exact ⟨_, rfl⟩

/-- **If nothing goes wrong** the client gets the rest of the file. -/
theorem Reading.completes (hshort : InBlocks blocks) :
    ∀ (n k : Nat) (d : Download H σ), k + n = blocks.length →
      Reading ctx addr port h blocks d ⟨k, k, [k], []⟩ →
      Sending ctx addr port h blocks k d.tftp d.app →
      ∃ d', DownloadRun ctx addr port d d' ∧ d'.client.done = true
  | n, k, d, hn, hd, hs => by
    -- the block arrives
    have hread := hd.receive hshort rfl
    have hdata : DownloadStep ctx addr port d { d with
        client := (d.client.recv (filePacket blocks k)).1
        toServer := d.toServer ++ [(d.client.recv (filePacket blocks k)).2] } :=
      .data (by rw [hd.toClient]; rfl)
    cases n with
    | zero => exact ⟨_, .single hdata, by rw [hread.done, decide_eq_true_eq]; exact hn⟩
    | succ n =>
      -- its copy is lost, its acknowledgement arrives, and the copy of that is lost
      have hack : IsAck [be16 tftpAck ++ be16 (UInt16.ofNat k)] (UInt16.ofNat k) :=
        ⟨ntohsAt_be16 [] tftpAck _ 0 rfl, ntohsAt_be16 (be16 tftpAck) _ [] 1 rfl⟩
      obtain ⟨out, hrecv⟩ := hs.ack_some hack
      rcases hs.ack hd.sent.1 hd.sent.2 hshort hack hrecv with
        ⟨hne, -⟩ | ⟨-, hnext, hle, hout⟩ | ⟨-, -, hend, -⟩
      · exact absurd rfl hne
      · let d₁ : Download H σ := { d with
          client := (d.client.recv (filePacket blocks k)).1
          toServer := d.toServer ++ [(d.client.recv (filePacket blocks k)).2] }
        let d₂ : Download H σ := { d₁ with toClient := [] }
        let d₃ : Download H σ := { d₂.after addr port out with toServer := [] }
        have hlose : DownloadStep ctx addr port d₁ d₂ :=
          .lose (List.Sublist.refl _) (List.nil_sublist _)
        have hhead : d₂.toServer.head? = some (UInt16.ofNat k) := by
          show d₁.toServer.head? = _
          rw [hread.toServer]
          rfl
        have hagain : DownloadStep ctx addr port (d₂.after addr port out) d₃ :=
          .lose (List.nil_sublist _) (List.Sublist.refl _)
        have hread' : Reading ctx addr port h blocks d₃ ⟨k + 1, k + 1, [k + 1], []⟩ := by
          refine ⟨?_, ⟨Nat.succ_pos _, hle⟩, ?_, rfl, hread.expected, hread.got, hread.done,
            .inl hnext⟩
          · constructor <;> simp
          · show [] ++ dataTo addr port out.events = _
            rw [hout]
            rfl
        obtain ⟨d', hrun, hdone⟩ := Reading.completes hshort n (k + 1) d₃ (by omega) hread' hnext
        exact ⟨d', .head hdata
          (.head hlose (.head (.ack hhead hack hrecv) (.head hagain hrun))), hdone⟩
      · omega

/-- **Whatever the network does**, the client has a prefix of the file, and the file when it has
seen the last block.  And it can get there. -/
theorem Sending.client_gets (haddr : addr ≠ 0) (hport : port ≠ 0) {app₁ : σ}
    (hfile : FileOf ctx h app₁ blocks) {out : Outcome H σ}
    (hs : Sending ctx addr port h blocks 1 out.tftp out.app)
    (hdata : dataTo addr port out.events = [filePacket blocks 1]) :
    (∀ d, DownloadRun ctx addr port (Download.start addr port out) d →
      d.client.got <+: blocks.flatten ∧ (d.client.done = true → d.client.got = blocks.flatten))
    ∧ ∃ d, DownloadRun ctx addr port (Download.start addr port out) d ∧ d.client.done = true := by
  have hshort := hfile.inBlocks
  have hpos := List.length_pos_iff.mpr hfile.ne_nil
  have hstart := Reading.start hs hdata hfile.ne_nil
  refine ⟨fun d hrun => ?_, ?_⟩
  · obtain ⟨w, hd⟩ := hstart.run haddr hport hshort hrun
    exact hd.got_prefix
  · exact Reading.completes hshort (blocks.length - 1) 1 _ (by omega) hstart hs

/-- **Reading a file over a bad network.**  The request is delivered once, and the server answers
it.  After that, whatever is lost, repeated, timed out or sent by others, the client has a prefix of
the file, and the file when it has seen the last block.  And it can get there. -/
theorem downloads (haddr : addr ≠ 0) (hport : port ≠ 0) (hhandle : s.handle = none)
    (ha : s.addr = 0) (hp : s.port = 0) {p : Pbuf} {fname mode : List UInt8}
    (hreq : IsRequest p tftpRrq fname mode) {app₁ : σ}
    (hopen : ctx.open app fname mode false = (app₁, some h)) (hfile : FileOf ctx h app₁ blocks) :
    ∃ out, recv ctx s app p addr port = some out
      ∧ (∀ d, DownloadRun ctx addr port (Download.start addr port out) d →
        d.client.got <+: blocks.flatten ∧ (d.client.done = true → d.client.got = blocks.flatten))
      ∧ ∃ d, DownloadRun ctx addr port (Download.start addr port out) d ∧ d.client.done = true := by
  obtain ⟨out, hrecv, hs, hdata⟩ := recv_rrq hhandle ha hp hreq hopen hfile
  exact ⟨out, hrecv, hs.client_gets haddr hport hfile hdata⟩

/-- `tftp_state` after `tftp_init` -/
def TftpState.init : TftpState H where
  handle := none
  lastData := none
  addr := 0
  port := 0
  timer := 0
  lastPkt := 0
  blknum := 0
  retries := 0
  modeWrite := false

/-- An application with one file, which is what is left of it. -/
def fileContext : TftpContext Unit (List UInt8) where
  «open» app _ _ _ := (app, some ())
  close app _ := app
  read app _ bytes := (app.drop bytes, (app.take bytes).length, app.take bytes)
  write app _ _ := (app, -1)

/-- The request for `a` in mode `o` -/
def requestA : Pbuf := [be16 tftpRrq ++ [0x61, 0, 0x6f, 0]]

theorem requestA_isRequest : IsRequest requestA tftpRrq [0x61] [0x6f] :=
  ⟨by decide, ⟨[], rfl⟩, by decide, by decide, by decide, by decide⟩

/-- A file of a thousand bytes -/
def thousandBytes : List UInt8 := (List.range 1000).map UInt8.ofNat

/-- Its blocks -/
def thousandBlocks : List (List UInt8) :=
  [thousandBytes.take 512, (thousandBytes.drop 512).take 512]

theorem thousandBytes_fileOf : FileOf fileContext () thousandBytes thousandBlocks :=
  .more rfl rfl (by simp [thousandBytes, tftpMaxPayloadSize])
    (.last rfl rfl (by simp [thousandBytes, tftpMaxPayloadSize]))

theorem downloads_thousandBytes :
    ∃ out, recv fileContext TftpState.init thousandBytes requestA 0x0A000001 4096 = some out
      ∧ (∀ d, DownloadRun fileContext 0x0A000001 4096 (Download.start 0x0A000001 4096 out) d →
        d.client.got <+: thousandBlocks.flatten
          ∧ (d.client.done = true → d.client.got = thousandBlocks.flatten))
      ∧ ∃ d, DownloadRun fileContext 0x0A000001 4096 (Download.start 0x0A000001 4096 out) d
        ∧ d.client.done = true :=
  downloads (by decide) (by decide) rfl rfl rfl requestA_isRequest rfl thousandBytes_fileOf

end MlibDevel.Jam
