import MlibDevel.Jam.TftpDownload
import MlibDevel.Jam.TftpTransfer

/-!
# Writing a file to the TFTP server

A client writes a file over a network as in `TftpDownload`.  Each step of the two is again one of
`StopAndWait`, or more, or none; now the server is the receiver.  So at any time the write callback
has been given the first blocks of the file, each once and in order (`tftp_uploads`).

The server recognises a copy of the block before by its number, and block 65535 not at all, since
the number before 0 is -1 there.  So a file has 65535 blocks at most.
-/

namespace MlibDevel.Jam

open Lib

variable {H σ : Type}

/-! ## The two parties -/

/-- The server, the client, and what is on the way between them, the oldest first.  The client sends
a block, or has sent the request if that is block 0.  Of a packet there are its number and its
payload.  `log` is what the write callback has been given of them. -/
structure Upload (H σ : Type) where
  tftp : TftpState H
  app : σ
  toServer : List (UInt16 × List UInt8)
  toClient : List UInt16
  sent : Nat
  done : Bool
  log : List (List UInt8)

/-- Block `k` of a file under its number -/
def fileBlock (blocks : List (List UInt8)) (k : Nat) : UInt16 × List UInt8 :=
  (UInt16.ofNat k, blocks.getD (k - 1) [])

/-- What an outcome leaves, and sends to the client -/
def Upload.after (addr : UInt32) (port : UInt16) (d : Upload H σ) (out : Outcome H σ) :
    Upload H σ :=
  { d with tftp := out.tftp, app := out.app, toClient := d.toClient ++ acksTo addr port out.events }

/-- An acknowledgement comes to the client.  It sends the next block, or has sent them all. -/
def Upload.acked (blocks : List (List UInt8)) (d : Upload H σ) (n : UInt16) : Upload H σ :=
  if n = UInt16.ofNat d.sent ∧ d.done = false then
    if d.sent = blocks.length then { d with done := true }
    else { d with sent := d.sent + 1, toServer := d.toServer ++ [fileBlock blocks (d.sent + 1)] }
  else d

/-- One step of the server, the client at `addr` and `port`, or the network.  What is delivered
stays on the way, so that it can be delivered again. -/
inductive UploadStep (ctx : TftpContext H σ) (addr : UInt32) (port : UInt16)
    (blocks : List (List UInt8)) : Upload H σ → Upload H σ → Prop
  /-- Some packets are lost. -/
  | lose {d : Upload H σ} {toServer : List (UInt16 × List UInt8)} {toClient : List UInt16}
      (hserver : toServer.Sublist d.toServer) (hclient : toClient.Sublist d.toClient) :
      UploadStep ctx addr port blocks d { d with toServer, toClient }
  /-- The timer of the server ticks. -/
  | tick {d : Upload H σ} :
      UploadStep ctx addr port blocks d (d.after addr port (tftpTmr ctx d.tftp d.app))
  /-- A block comes to the server, in any buffers. -/
  | data {d : Upload H σ} {n : UInt16} {payload : List UInt8} (c : Cut payload) {out : Outcome H σ}
      (hblock : d.toServer.head? = some (n, payload))
      (hrecv : recv ctx d.tftp d.app (c.packet n) addr port = some out) :
      UploadStep ctx addr port blocks d { d.after addr port out with
        log := d.log ++ out.events.filterMap Event.payload? }
  /-- A packet of another client comes to the server. -/
  | other {d : Upload H σ} {p : Pbuf} {a : UInt32} {q : UInt16} {out : Outcome H σ} (ha : a ≠ 0)
      (hq : q ≠ 0) (hother : ¬(a = addr ∧ q = port))
      (hrecv : recv ctx d.tftp d.app p a q = some out) :
      UploadStep ctx addr port blocks d (d.after addr port out)
  /-- An acknowledgement comes to the client. -/
  | ack {d : Upload H σ} {n : UInt16} (hn : d.toClient.head? = some n) :
      UploadStep ctx addr port blocks d (d.acked blocks n)
  /-- The client sends the block again. -/
  | again {d : Upload H σ} (hsent : 0 < d.sent) :
      UploadStep ctx addr port blocks d { d with
        toServer := d.toServer ++ [fileBlock blocks d.sent] }

/-! ## The server -/

variable {ctx : TftpContext H σ} {addr : UInt32} {port : UInt16} {h : H}
  {blocks : List (List UInt8)} {s : TftpState H} {app : σ} {out : Outcome H σ} {n k : Nat}

/-- The timer of the server does nothing, or closes the connection. -/
theorem Receiving.tick (ctx : TftpContext H σ) {m : UInt16} (hr : Receiving addr port s h m)
    (app : σ) :
    (Receiving addr port (tftpTmr ctx s app).tftp h m ∨ Elsewhere addr port
      (tftpTmr ctx s app).tftp)
      ∧ acksTo addr port (tftpTmr ctx s app).events = [] := by
  have hopen : ¬s.handle.isNone = true := by rw [hr.handle]; exact Bool.false_ne_true
  unfold tftpTmr
  dsimp only
  rw [if_neg hopen]
  split
  · split
    · refine ⟨.inl ⟨hr.handle, hr.modeWrite, hr.addr_eq, hr.port_eq, hr.blknum⟩, ?_⟩
      unfold resendData
      split <;> rfl
    · refine ⟨.inr ?_, ?_⟩
      · simp [closeHandle, hr.handle, Elsewhere]
      · simp [closeHandle, hr.handle, acksTo]
  · exact ⟨.inl ⟨hr.handle, hr.modeWrite, hr.addr_eq, hr.port_eq, hr.blknum⟩, rfl⟩

/-- Closing the connection writes and acknowledges nothing. -/
theorem closeHandle_quiet (addr : UInt32) (port : UInt16) (ctx : TftpContext H σ)
    (s : TftpState H) (app : σ) :
    Elsewhere addr port (closeHandle ctx s app).tftp
      ∧ acksTo addr port (closeHandle ctx s app).events = []
      ∧ (closeHandle ctx s app).events.filterMap Event.payload? = [] := by
  unfold closeHandle
  cases hh : s.handle with
  | none => exact ⟨.inl ⟨rfl, rfl, rfl⟩, rfl, rfl⟩
  | some h => exact ⟨.inl ⟨rfl, rfl, rfl⟩, rfl, rfl⟩

/-- A new block is given to the write callback, and acknowledged if that takes it. -/
theorem Receiving.writes (ctx : TftpContext H σ) {m : UInt16} (hr : Receiving addr port s h m)
    (app : σ) (p : Pbuf) :
    (writeBlock ctx s app h p addr port m).events.filterMap Event.payload? = [p.flatten]
      ∧ (Receiving addr port (writeBlock ctx s app h p addr port m).tftp h (m + 1)
          ∧ acksTo addr port (writeBlock ctx s app h p addr port m).events = [m]
        ∨ Elsewhere addr port (writeBlock ctx s app h p addr port m).tftp
          ∧ acksTo addr port (writeBlock ctx s app h p addr port m).events = []) := by
  by_cases hok : 0 ≤ (ctx.write app h p).2
  · rw [writeBlock_new hr p hok]
    exact ⟨rfl, .inl ⟨⟨hr.handle, hr.modeWrite, hr.addr_eq, hr.port_eq, rfl⟩, by simp [acksTo]⟩⟩
  · obtain ⟨helse, hacks, hnone⟩ := closeHandle_quiet addr port ctx s
      (ctx.write app h p).1
    have hwrite : writeBlock ctx s app h p addr port m
        = { closeHandle ctx s (ctx.write app h p).1 with
          events := .wrote h p :: .error addr port .accessViolation "error writing file"
            :: (closeHandle ctx s (ctx.write app h p).1).events } := by
      rw [writeBlock, hr.blknum, if_neg (ne_pred m)]
      simp only [if_pos (not_le.mp hok)]
    rw [hwrite]
    exact ⟨congrArg (p.flatten :: ·) hnone, .inr ⟨helse, hacks⟩⟩

/-- **The block that is waited for** is given to the write callback. -/
theorem Receiving.block (hr : Receiving addr port s h (UInt16.ofNat n)) (hpos : 0 < n)
    (hle : n ≤ blocks.length) (hblocks : InBlocks blocks) (c : Cut (blocks.getD (n - 1) []))
    (hrecv : recv ctx s app (c.packet (UInt16.ofNat n)) addr port = some out) :
    out.events.filterMap Event.payload? = [blocks.getD (n - 1) []]
      ∧ (Receiving addr port out.tftp h (UInt16.ofNat (n + 1)) ∧ n + 1 ≤ blocks.length
        ∨ Elsewhere addr port out.tftp)
      ∧ (acksTo addr port out.events = [] ∨ acksTo addr port out.events = [UInt16.ofNat n]) := by
  have hblock : blocks[n - 1]? = some (blocks.getD (n - 1) []) := by
    rw [List.getD_eq_getElem?_getD, List.getElem?_eq_getElem (by omega)]
    rfl
  obtain ⟨hmax, hshort⟩ := hblocks _ _ hblock
  have hwrite := hr.touch.writes ctx app c.chain
  rw [c.flatten_chain] at hwrite
  obtain ⟨hpayload, hwrite⟩ := hwrite
  rw [recv_eq_writeBlock hr] at hrecv
  dsimp only at hrecv
  split at hrecv
  · -- the last block
    obtain ⟨helse, hacks, hnone⟩ := closeHandle_quiet addr port ctx
      (writeBlock ctx { s with lastPkt := s.timer, retries := 0 } app h c.chain addr port
        (UInt16.ofNat n)).tftp
      (writeBlock ctx { s with lastPkt := s.timer, retries := 0 } app h c.chain addr port
        (UInt16.ofNat n)).app
    rw [← Option.some.inj hrecv]
    refine ⟨?_, .inr helse, ?_⟩
    · rw [List.filterMap_append, hpayload, hnone, List.append_nil]
    · rw [acksTo, List.filterMap_append]
      rw [acksTo] at hacks
      rw [hacks, List.append_nil]
      exact hwrite.elim (fun hr => .inr hr.2) (fun he => .inl he.2)
  · rw [← Option.some.inj hrecv]
    refine ⟨hpayload, ?_, hwrite.elim (fun hr => .inr hr.2) (fun he => .inl he.2)⟩
    rcases hwrite with ⟨hr', -⟩ | ⟨helse, -⟩
    · exact .inl ⟨(ofNat_succ n).symm ▸ hr', by omega⟩
    · exact .inr helse

/-- **A copy of the block before** is acknowledged. -/
theorem Receiving.copy (hr : Receiving addr port s h (UInt16.ofNat (k + 1))) (hpos : 0 < k)
    (hlt : k < blocks.length) (hlen : blocks.length ≤ 65535) (hblocks : InBlocks blocks)
    (c : Cut (blocks.getD (k - 1) []))
    (hrecv : recv ctx s app (c.packet (UInt16.ofNat k)) addr port = some out) :
    Receiving addr port out.tftp h (UInt16.ofNat (k + 1))
      ∧ out.events.filterMap Event.payload? = []
      ∧ acksTo addr port out.events = [UInt16.ofNat k] := by
  have hblock : blocks[k - 1]? = some (blocks.getD (k - 1) []) := by
    rw [List.getD_eq_getElem?_getD, List.getElem?_eq_getElem (by omega)]
    rfl
  obtain ⟨hmax, hshort⟩ := hblocks _ _ hblock
  rw [ofNat_succ] at hr ⊢
  have hne : UInt16.ofNat k ≠ 65535 := by
    intro heq
    have hmod := (ofNat_inj_iff k 65535).mp heq
    omega
  obtain ⟨s', hagain, hr'⟩ := recv_again ctx app hr hne c (by omega)
  rw [hagain] at hrecv
  rw [← Option.some.inj hrecv]
  exact ⟨hr', rfl, by simp [acksTo]⟩

/-- **A block of a client without a connection** is not given to the write callback. -/
theorem recv_data_elsewhere (haddr : addr ≠ 0) (helse : Elsewhere addr port s)
    {payload : List UInt8} (c : Cut payload) {m : UInt16}
    (hrecv : recv ctx s app (c.packet m) addr port = some out) :
    Elsewhere addr port out.tftp ∧ acksTo addr port out.events = []
      ∧ out.events.filterMap Event.payload? = [] := by
  have hdata : some tftpData ≠ some tftpRrq ∧ some tftpData ≠ some tftpWrq := by decide
  obtain ⟨helse', hsilent⟩ := recv_own_elsewhere ctx haddr helse
    (by rw [c.ntohsAt_opcode]; exact hdata.1)
    (by rw [c.ntohsAt_opcode]; exact hdata.2) hrecv
  refine ⟨helse', hsilent.acksTo, ?_⟩
  rcases helse with ⟨hhandle, ha, hp⟩ | ⟨ha, hp, hother⟩
  · obtain ⟨s', hclosed, -⟩ := recv_closed ctx app addr port m ⟨hhandle, ha, hp⟩ c
    rw [hclosed] at hrecv
    rw [← Option.some.inj hrecv]
    rfl
  · rw [recv_stranger ctx ha hp (fun heq => hother ⟨heq.1.symm, heq.2.symm⟩)] at hrecv
    rw [← Option.some.inj hrecv]
    rfl

/-! ## The protocol -/

/-- The two parties and the protocol -/
structure Writing (addr : UInt32) (port : UInt16) (h : H) (blocks : List (List UInt8))
    (d : Upload H σ) (w : StopAndWait) : Prop where
  inv : w.Inv
  sent : d.sent = w.sent
  sent_le : w.sent ≤ blocks.length
  next_pos : 0 < w.next
  data_pos : ∀ k ∈ w.data, 0 < k
  toServer : d.toServer = w.data.map (fileBlock blocks)
  toClient : d.toClient = w.acks.map UInt16.ofNat
  log : d.log = blocks.take (w.next - 1)
  done : d.done = true → w.next - 1 = blocks.length
  server : Receiving addr port d.tftp h (UInt16.ofNat w.next) ∧ w.next ≤ blocks.length
    ∨ Elsewhere addr port d.tftp

section Step

variable {d d' : Upload H σ} {w : StopAndWait} (hd : Writing addr port h blocks d w)

include hd

/-- The server goes on, and the protocol does not. -/
theorem Writing.stay (hacks : acksTo addr port out.events = [])
    (hserver : Receiving addr port out.tftp h (UInt16.ofNat w.next) ∧ w.next ≤ blocks.length ∨
      Elsewhere addr port out.tftp) : Writing addr port h blocks (d.after addr port out) w := by
  refine ⟨hd.inv, hd.sent, hd.sent_le, hd.next_pos, hd.data_pos, hd.toServer, ?_, hd.log, hd.done,
    hserver⟩
  show d.toClient ++ _ = _
  rw [hacks, List.append_nil]
  exact hd.toClient

/-- A packet on the way to the server is the block that is waited for, or the one before. -/
theorem Writing.head (hk : w.data.head? = some k) :
    k = w.next ∧ w.next ≤ blocks.length ∨ k + 1 = w.next := by
  have hmem : k ∈ w.data := List.mem_of_mem_head? hk
  have hle := hd.sent_le
  rcases hd.inv.next with hnext | hnext
  · rcases hd.inv.data k hmem with rfl | hbefore
    · exact .inl ⟨hnext.symm, by omega⟩
    · exact .inr (by omega)
  · have := hd.inv.received hnext k hmem
    exact .inr (by omega)

/-- **The next block comes to the server**: it is written, and may be acknowledged. -/
theorem Writing.receive (hblocks : InBlocks blocks) (hk : w.data.head? = some w.next)
    (hr : Receiving addr port d.tftp h (UInt16.ofNat w.next)) (hle : w.next ≤ blocks.length)
    (c : Cut (blocks.getD (w.next - 1) []))
    (hrecv : recv ctx d.tftp d.app (c.packet (UInt16.ofNat w.next)) addr port = some out) :
    ∃ w', Writing addr port h blocks { d.after addr port out with
      log := d.log ++ out.events.filterMap Event.payload? } w' := by
  obtain ⟨hpayload, hserver, hacks⟩ := hr.block hd.next_pos hle hblocks c hrecv
  have hreceived : w.Step 65536 { w with next := w.next + 1, acks := w.acks ++ [w.next] } :=
    .received hk rfl
  have hinv := hd.inv.step (by decide) hreceived
  have hlog : d.log ++ out.events.filterMap Event.payload? = blocks.take (w.next + 1 - 1) := by
    have hpos := hd.next_pos
    have hlt : w.next - 1 < blocks.length := by omega
    rw [hpayload, hd.log, List.getD_eq_getElem?_getD, List.getElem?_eq_getElem hlt,
      show w.next + 1 - 1 = w.next - 1 + 1 by omega, List.take_succ_eq_append_getElem hlt]
    rfl
  have hdone : d.done = true → w.next + 1 - 1 = blocks.length := by
    intro hdone
    have := hd.done hdone
    have := hd.next_pos
    omega
  rcases hacks with hnone | hack
  · -- the write callback has failed: it is as if the acknowledgement were lost
    have hlost : StopAndWait.Step 65536 { w with next := w.next + 1, acks := w.acks ++ [w.next] }
        { w with next := w.next + 1 } := .lose (List.Sublist.refl _) (List.sublist_append_left _ _)
    refine ⟨_, hinv.step (by decide) hlost, hd.sent, hd.sent_le, Nat.succ_pos _, hd.data_pos,
      hd.toServer, ?_, hlog, hdone, hserver⟩
    show d.toClient ++ _ = _
    rw [hnone, List.append_nil]
    exact hd.toClient
  · refine ⟨_, hinv, hd.sent, hd.sent_le, Nat.succ_pos _, hd.data_pos, hd.toServer, ?_, hlog, hdone,
      hserver⟩
    show d.toClient ++ _ = _
    rw [hack, hd.toClient, List.map_append]
    rfl

/-- **A block comes to the server.** -/
theorem Writing.data (haddr : addr ≠ 0) (hblocks : InBlocks blocks) (hlen : blocks.length ≤ 65535)
    {m : UInt16} {payload : List UInt8} (c : Cut payload)
    (hblock : d.toServer.head? = some (m, payload))
    (hrecv : recv ctx d.tftp d.app (c.packet m) addr port = some out) :
    ∃ w', Writing addr port h blocks { d.after addr port out with
      log := d.log ++ out.events.filterMap Event.payload? } w' := by
  rcases hd.server with ⟨hr, hle⟩ | helse
  · rw [hd.toServer, List.head?_map, Option.map_eq_some_iff] at hblock
    obtain ⟨k, hk, heq⟩ := hblock
    obtain ⟨rfl, rfl⟩ := Prod.mk.inj heq
    rcases hd.head hk with ⟨rfl, -⟩ | hbefore
    · exact hd.receive hblocks hk hr hle c hrecv
    · have hpos := hd.data_pos k (List.mem_of_mem_head? hk)
      rw [← hbefore] at hr
      obtain ⟨hr', hpayload, hack⟩ := hr.copy hpos (by omega) hlen hblocks c hrecv
      have hagain : w.Step 65536 { w with acks := w.acks ++ [k] } := .again hbefore
      refine ⟨_, hd.inv.step (by decide) hagain, hd.sent, hd.sent_le, hd.next_pos, hd.data_pos,
        hd.toServer, ?_, ?_, hd.done, .inl ⟨hbefore ▸ hr', hle⟩⟩
      · show d.toClient ++ _ = _
        rw [hack, hd.toClient, List.map_append]
        rfl
      · show d.log ++ _ = _
        rw [hpayload, List.append_nil]
        exact hd.log
  · obtain ⟨helse', hacks, hpayload⟩ := recv_data_elsewhere haddr helse c hrecv
    rw [hpayload, List.append_nil]
    exact ⟨w, hd.stay hacks (.inr helse')⟩

/-- **An acknowledgement comes to the client.** -/
theorem Writing.ack {m : UInt16} (hm : d.toClient.head? = some m) :
    ∃ w', Writing addr port h blocks (d.acked blocks m) w' := by
  rw [hd.toClient, List.head?_map, Option.map_eq_some_iff] at hm
  obtain ⟨a, ha, rfl⟩ := hm
  unfold Upload.acked
  split_ifs with hsent hlast
  · -- the last block
    rw [hd.sent, ofNat_inj_iff] at hsent
    obtain ⟨-, hnext⟩ := hd.inv.is_acked (by decide) ha hsent.1
    have hsent := hd.sent
    exact ⟨w, hd.inv, hd.sent, hd.sent_le, hd.next_pos, hd.data_pos, hd.toServer,
      hd.toClient, hd.log,
      fun _ => by omega, hd.server⟩
  · rw [hd.sent, ofNat_inj_iff] at hsent
    have hacked : w.Step 65536 { w with sent := w.sent + 1, data := w.data ++ [w.sent + 1] } :=
      .acked ha hsent.1
    have hle := hd.sent_le
    rw [hd.sent] at hlast
    have hle' : w.sent + 1 ≤ blocks.length := by omega
    refine ⟨_, hd.inv.step (by decide) hacked, congrArg (· + 1) hd.sent, hle',
      hd.next_pos, fun k hk => ?_, ?_, hd.toClient, hd.log, hd.done, hd.server⟩
    · rcases List.mem_append.mp hk with hk | hk
      · exact hd.data_pos k hk
      · rw [List.mem_singleton.mp hk]
        exact Nat.succ_pos _
    · show d.toServer ++ _ = _
      rw [hd.toServer, hd.sent, List.map_append]
      rfl
  · exact ⟨w, hd⟩

/-- **A step of the two parties** keeps to the protocol. -/
theorem Writing.step (haddr : addr ≠ 0) (hport : port ≠ 0) (hblocks : InBlocks blocks)
    (hlen : blocks.length ≤ 65535) (hstep : UploadStep ctx addr port blocks d d') :
    ∃ w', Writing addr port h blocks d' w' := by
  cases hstep with
  | lose hserver hclient =>
    rw [hd.toServer, List.sublist_map_iff] at hserver
    rw [hd.toClient, List.sublist_map_iff] at hclient
    obtain ⟨data, hdata, rfl⟩ := hserver
    obtain ⟨acks, hacks, rfl⟩ := hclient
    have hlost : w.Step 65536 { w with data, acks } := .lose hdata hacks
    exact ⟨_, hd.inv.step (by decide) hlost, hd.sent, hd.sent_le, hd.next_pos,
      fun k hk => hd.data_pos k (hdata.mem hk), rfl, rfl, hd.log, hd.done, hd.server⟩
  | tick =>
    rcases hd.server with ⟨hr, hle⟩ | helse
    · obtain ⟨hserver, hacks⟩ := hr.tick ctx d.app
      exact ⟨w, hd.stay hacks (hserver.imp_left fun hr' => ⟨hr', hle⟩)⟩
    · obtain ⟨helse', hsilent⟩ := tftpTmr_elsewhere ctx haddr helse d.app
      exact ⟨w, hd.stay hsilent.acksTo (.inr helse')⟩
  | data c hblock hrecv => exact hd.data haddr hblocks hlen c hblock hrecv
  | other ha hq hother hrecv =>
    rcases hd.server with ⟨hr, hle⟩ | helse
    · rw [recv_stranger ctx (by rw [hr.addr_eq]; exact haddr) (by rw [hr.port_eq]; exact hport)
        (by rw [hr.addr_eq, hr.port_eq]; exact hother)] at hrecv
      rw [← Option.some.inj hrecv]
      exact ⟨w, hd.stay rfl (.inl ⟨hr, hle⟩)⟩
    · obtain ⟨helse', hsilent⟩ := recv_elsewhere ctx haddr helse ha hq hother hrecv
      exact ⟨w, hd.stay hsilent.acksTo (.inr helse')⟩
  | ack hn => exact hd.ack hn
  | again hsent =>
    have hsend : w.Step 65536 { w with data := w.data ++ [w.sent] } := .send
    refine ⟨_, hd.inv.step (by decide) hsend, hd.sent, hd.sent_le, hd.next_pos, fun k hk => ?_, ?_,
      hd.toClient, hd.log, hd.done, hd.server⟩
    · rcases List.mem_append.mp hk with hk | hk
      · exact hd.data_pos k hk
      · rw [List.mem_singleton.mp hk, ← hd.sent]
        exact hsent
    · show d.toServer ++ _ = _
      rw [hd.toServer, hd.sent, List.map_append]
      rfl

end Step

/-! ## Whole uploads -/

/-- The request is granted, and the client waits for that to be acknowledged. -/
def Upload.start (addr : UInt32) (port : UInt16) (out : Outcome H σ) : Upload H σ :=
  ⟨out.tftp, out.app, [], acksTo addr port out.events, 0, false, []⟩

/-- The two parties and the network take steps. -/
abbrev UploadRun (ctx : TftpContext H σ) (addr : UInt32) (port : UInt16)
    (blocks : List (List UInt8)) : Upload H σ → Upload H σ → Prop :=
  Relation.ReflTransGen (UploadStep ctx addr port blocks)

/-- **A write request** opens the file and is acknowledged. -/
theorem recv_wrq {p : Pbuf} {fname mode : List UInt8} (hhandle : s.handle = none) (ha : s.addr = 0)
    (hp : s.port = 0) (hreq : IsRequest p tftpWrq fname mode) {app₁ : σ}
    (hopen : ctx.open app fname mode true = (app₁, some h)) :
    ∃ out, recv ctx s app p addr port = some out
      ∧ Receiving addr port out.tftp h (UInt16.ofNat 1) ∧ out.app = app₁
      ∧ acksTo addr port out.events = [UInt16.ofNat 0] := by
  have hrecv := recv_request true addr port ha hp hreq rfl hhandle hopen
  exact ⟨_, hrecv, ⟨rfl, rfl, rfl, rfl, rfl⟩, rfl, by simp [acksTo]⟩

theorem Writing.start (hr : Receiving addr port out.tftp h (UInt16.ofNat 1))
    (hacks : acksTo addr port out.events = [UInt16.ofNat 0]) (hne : blocks ≠ []) :
    Writing addr port h blocks (Upload.start addr port out) ⟨0, 1, [], [0]⟩ := by
  refine ⟨?_, rfl, Nat.zero_le _, Nat.one_pos, ?_, rfl, hacks, rfl, ?_,
    .inl ⟨hr, List.length_pos_iff.mpr hne⟩⟩
  · constructor <;> simp
  · exact fun k hk => absurd hk List.not_mem_nil
  · exact fun hdone => absurd hdone Bool.false_ne_true

section Run

variable {d d' : Upload H σ} {w : StopAndWait}

/-- **Whatever the network does**, the protocol goes on. -/
theorem Writing.run (haddr : addr ≠ 0) (hport : port ≠ 0) (hblocks : InBlocks blocks)
    (hlen : blocks.length ≤ 65535) (hd : Writing addr port h blocks d w)
    (hrun : UploadRun ctx addr port blocks d d') : ∃ w', Writing addr port h blocks d' w' := by
  induction hrun with
  | refl => exact ⟨w, hd⟩
  | tail _ hstep ih =>
    obtain ⟨w', hd'⟩ := ih
    exact hd'.step haddr hport hblocks hlen hstep

/-- The callback has been given the first blocks, or all of them. -/
theorem Writing.log_prefix (hd : Writing addr port h blocks d w) :
    d.log <+: blocks ∧ (d.done = true → d.log = blocks) := by
  rw [hd.log]
  refine ⟨List.take_prefix _ _, fun hdone => ?_⟩
  rw [hd.done hdone, List.take_length]

/-- All that is on the way is the acknowledgement of the block that the client sends. -/
structure Upload.Between (d : Upload H σ) (k : Nat) : Prop where
  toServer : d.toServer = []
  toClient : d.toClient = [UInt16.ofNat k]
  sent : d.sent = k
  done : d.done = false

/-- **One block** is sent, received and acknowledged, and the copies are lost. -/
theorem Upload.Between.round (hd : d.Between k) (hlt : k < blocks.length) (c : Cut blocks[k])
    (hrecv : recv ctx d.tftp d.app (c.packet (UInt16.ofNat (k + 1))) addr port = some out)
    (hacks : acksTo addr port out.events = [UInt16.ofNat (k + 1)]) :
    ∃ d', UploadRun ctx addr port blocks d d' ∧ d'.Between (k + 1) ∧ d'.tftp = out.tftp
      ∧ d'.app = out.app := by
  let d₁ : Upload H σ := { d with sent := k + 1, toServer := [fileBlock blocks (k + 1)] }
  let d₂ : Upload H σ := { d₁.after addr port out with
    log := d₁.log ++ out.events.filterMap Event.payload? }
  let d₃ : Upload H σ := { d₂ with toServer := [], toClient := [UInt16.ofNat (k + 1)] }
  have hack : UploadStep ctx addr port blocks d d₁ := by
    have hacked : d.acked blocks (UInt16.ofNat k) = d₁ := by
      rw [Upload.acked, hd.sent, if_pos ⟨rfl, hd.done⟩, if_neg (Nat.ne_of_lt hlt), hd.toServer]
      rfl
    rw [← hacked]
    exact .ack (by rw [hd.toClient]; rfl)
  have hdata : UploadStep ctx addr port blocks d₁ d₂ := by
    refine .data c (congrArg some ?_) hrecv
    rw [fileBlock, Nat.add_sub_cancel, List.getD_eq_getElem?_getD, List.getElem?_eq_getElem hlt]
    rfl
  have hlose : UploadStep ctx addr port blocks d₂ d₃ := by
    refine .lose (List.nil_sublist _) ?_
    show List.Sublist _ (d.toClient ++ acksTo addr port out.events)
    rw [hacks]
    exact List.sublist_append_right _ _
  exact ⟨d₃, .head hack (.head hdata (.single hlose)), ⟨rfl, rfl, rfl, hd.done⟩, rfl, rfl⟩

/-- **If nothing goes wrong**, and the callback takes the blocks, all of them are written. -/
theorem Upload.Between.completes (hblocks : InBlocks blocks) :
    ∀ (n k : Nat) (d : Upload H σ), k + (n + 1) = blocks.length → d.Between k →
      Receiving addr port d.tftp h (UInt16.ofNat (k + 1)) →
      Accepts ctx h d.app ((blocks.drop k).map ([·])) →
      ∃ d', UploadRun ctx addr port blocks d d' ∧ d'.done = true
  | n, k, d, hn, hd, hr, hok => by
    have hlt : k < blocks.length := by omega
    obtain ⟨hmax, hshort⟩ := hblocks k _ (List.getElem?_eq_getElem hlt)
    rw [List.drop_eq_getElem_cons hlt, List.map_cons, Accepts] at hok
    let c : Cut blocks[k] := ⟨blocks[k], [], List.append_nil _⟩
    cases n with
    | zero =>
      obtain ⟨s', app', hrecv, -⟩ := recv_last hr c (by omega) hok.1
      obtain ⟨d', hrun, hd', -⟩ := hd.round hlt c hrecv (by simp [acksTo])
      have hack : UploadStep ctx addr port blocks d' { d' with done := true } := by
        have hacked : d'.acked blocks (UInt16.ofNat (k + 1)) = { d' with done := true } := by
          rw [Upload.acked, hd'.sent, if_pos ⟨rfl, hd'.done⟩, if_pos hn]
        rw [← hacked]
        exact .ack (by rw [hd'.toClient]; rfl)
      exact ⟨_, hrun.tail hack, rfl⟩
    | succ n =>
      obtain ⟨s', hrecv, hr'⟩ := recv_new hr c (by omega) hok.1
      obtain ⟨d', hrun, hd', htftp, happ⟩ := hd.round hlt c hrecv (by simp [acksTo])
      rw [← ofNat_succ, ← show d'.tftp = s' from htftp] at hr'
      obtain ⟨d'', hrun', hdone⟩ := Upload.Between.completes hblocks n (k + 1) d' (by omega) hd' hr'
        (by rw [happ]; exact hok.2)
      exact ⟨d'', hrun.trans hrun', hdone⟩

end Run

/--
**Writing a file over a bad network.**  The request is delivered once, and the server answers it.
After that, whatever is lost, repeated, timed out or sent by others, the write callback has been
given the first blocks of the file, each once and in order, and all of them when the client has seen
the last block acknowledged.  And it can get there if the callback takes them.
-/
theorem tftp_uploads (haddr : addr ≠ 0) (hport : port ≠ 0) (hhandle : s.handle = none)
    (ha : s.addr = 0) (hp : s.port = 0) {p : Pbuf} {fname mode : List UInt8}
    (hreq : IsRequest p tftpWrq fname mode) {app₁ : σ}
    (hopen : ctx.open app fname mode true = (app₁, some h)) (hblocks : InBlocks blocks)
    (hne : blocks ≠ []) (hlen : blocks.length ≤ 65535) :
    ∃ out, recv ctx s app p addr port = some out
      ∧ (∀ d, UploadRun ctx addr port blocks (Upload.start addr port out) d →
        d.log <+: blocks ∧ (d.done = true → d.log = blocks))
      ∧ (Accepts ctx h app₁ (blocks.map ([·])) →
        ∃ d, UploadRun ctx addr port blocks (Upload.start addr port out) d ∧ d.done = true) := by
  obtain ⟨out, hrecv, hr, rfl, hacks⟩ := recv_wrq hhandle ha hp hreq hopen
  have hpos := List.length_pos_iff.mpr hne
  have hstart := Writing.start hr hacks hne
  refine ⟨out, hrecv, fun d hrun => ?_, fun hok => ?_⟩
  · obtain ⟨w, hd⟩ := hstart.run haddr hport hblocks hlen hrun
    exact hd.log_prefix
  · exact Upload.Between.completes hblocks (blocks.length - 1) 0 _ (by omega)
      ⟨rfl, hacks, rfl, rfl⟩ hr hok

/-- The request to write `a` in mode `o` -/
def requestWriteA : Pbuf := [be16 tftpWrq ++ [0x61, 0, 0x6f, 0]]

theorem requestWriteA_isRequest : IsRequest requestWriteA tftpWrq [0x61] [0x6f] :=
  ⟨by decide, ⟨[], rfl⟩, by decide, by decide, by decide, by decide⟩

theorem thousandBlocks_inBlocks : InBlocks thousandBlocks := by
  intro i block hblock
  obtain ⟨hlt, rfl⟩ := List.getElem?_eq_some_iff.mp hblock
  have hcases : i = 0 ∨ i = 1 := by
    have hlen : thousandBlocks.length = 2 := rfl
    omega
  rcases hcases with rfl | rfl <;> simp [thousandBlocks, thousandBytes, tftpMaxPayloadSize]

/-- A file of a thousand bytes can be written. -/
theorem tftp_uploads_thousandBytes :
    ∃ out, recv sinkContext TftpState.init () requestWriteA 0x0A000001 4096 = some out
      ∧ (∀ d, UploadRun sinkContext 0x0A000001 4096 thousandBlocks
        (Upload.start 0x0A000001 4096 out) d →
        d.log <+: thousandBlocks ∧ (d.done = true → d.log = thousandBlocks))
      ∧ ∃ d, UploadRun sinkContext 0x0A000001 4096 thousandBlocks
        (Upload.start 0x0A000001 4096 out) d ∧ d.done = true := by
  have haddr : (0x0A000001 : UInt32) ≠ 0 := by decide
  have hport : (4096 : UInt16) ≠ 0 := by decide
  have hopen : sinkContext.open () [0x61] [0x6f] true = ((), some ()) := rfl
  obtain ⟨out, hrecv, hlog, hcan⟩ := tftp_uploads haddr hport
    (rfl : (TftpState.init : TftpState Unit).handle = none) rfl rfl requestWriteA_isRequest hopen
    thousandBlocks_inBlocks (by decide) (by decide)
  exact ⟨out, hrecv, hlog, hcan ⟨Int.le_refl 0, Int.le_refl 0, trivial⟩⟩

end MlibDevel.Jam
