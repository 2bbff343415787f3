import MlibDevel.Jam.TftpServer
import Mathlib.Data.List.Forall2

/-!
# Whole transfers to the TFTP server

A client that writes a file sends it in blocks of 512 bytes and a shorter last one, numbered from 1
modulo 2^16.  A block whose acknowledgement does not come is sent again, so it can arrive several
times before the next one is sent.  This module follows such a transfer through `recv`.

The server is either `Receiving`, waiting for block `n`, or `Closed`.  A copy of block `n - 1` is
recognised as a duplicate by its number, except for `n = 0`: there the number before `n` is 65535
on the wire and -1 in the comparison.  The short block closes the connection, so copies of it that
come later find no connection.

## Main results

- `recvAll_transfer` : every payload is written once, in order, and every copy is acknowledged that
  arrives before the connection is closed
-/

namespace MlibDevel.Jam

/-! ## The client's side -/

/-- A way of cutting a payload over the buffers of a packet whose header is in the first one. -/
structure Cut (payload : List UInt8) where
  head : List UInt8
  tail : Pbuf
  joined : head ++ tail.flatten = payload

/-- The payload as the write callback gets it, without the header. -/
def Cut.chain {payload : List UInt8} (c : Cut payload) : Pbuf := c.head :: c.tail

/-- The `TFTP_DATA` packet with block number `n`. -/
def Cut.packet {payload : List UInt8} (c : Cut payload) (n : UInt16) : Pbuf :=
  (be16 tftpData ++ be16 n ++ c.head) :: c.tail

/-- A block of a transfer with all the copies of it that arrive. -/
structure Block where
  payload : List UInt8
  first : Cut payload
  again : List (Cut payload)

/-- The packets that bring the block under number `n`. -/
def Block.packets (b : Block) (n : UInt16) : List Pbuf :=
  b.first.packet n :: b.again.map (·.packet n)

/-- A transfer: full blocks and a short last one. -/
structure Transfer where
  full : List Block
  last : Block
  full_size : ∀ b ∈ full, b.payload.length = tftpMaxPayloadSize
  last_size : last.payload.length < tftpMaxPayloadSize

/-- All the blocks of a transfer in order. -/
def Transfer.blocks (t : Transfer) : List Block := t.full ++ [t.last]

/-- The packets of consecutive blocks, numbered modulo 2^16 from `i`. -/
def packetsFrom : Nat → List Block → List Pbuf
  | _, [] => []
  | i, b :: bs => b.packets (UInt16.ofNat i) ++ packetsFrom (i + 1) bs

/-- The number of the last block. -/
def Transfer.lastNumber (t : Transfer) : UInt16 := UInt16.ofNat (t.full.length + 1)

/-- The packets up to the first copy of the last block. -/
def Transfer.inTime (t : Transfer) : List Pbuf :=
  packetsFrom 1 t.full ++ [t.last.first.packet t.lastNumber]

/-- The further copies of the last block. -/
def Transfer.late (t : Transfer) : List Pbuf := t.last.again.map (·.packet t.lastNumber)

/-- Everything that arrives, in order. -/
def Transfer.packets (t : Transfer) : List Pbuf := packetsFrom 1 t.blocks

theorem packetsFrom_append : ∀ (i : Nat) (as bs : List Block),
    packetsFrom i (as ++ bs) = packetsFrom i as ++ packetsFrom (i + as.length) bs
  | _, [], _ => rfl
  | i, a :: as, bs => by
    simp only [List.cons_append, packetsFrom, packetsFrom_append (i + 1) as bs,
      List.append_assoc, List.length_cons]
    rw [Nat.add_right_comm i 1, Nat.add_assoc i]

theorem Transfer.packets_eq (t : Transfer) : t.packets = t.inTime ++ t.late := by
  have hnum : 1 + t.full.length = t.full.length + 1 := Nat.add_comm _ _
  simp [Transfer.packets, Transfer.blocks, packetsFrom_append, packetsFrom, Block.packets,
    Transfer.inTime, Transfer.late, Transfer.lastNumber, hnum]

/-! ## The server's side -/

section

variable {H σ : Type} (ctx : TftpContext H σ) (addr : UInt32) (port : UInt16)

/-- Handle packets of one client in turn, collecting what each of them causes. -/
def recvAll : TftpState H → σ → List Pbuf → Option (TftpState H × σ × List (List (Event H)))
  | s, app, [] => some (s, app, [])
  | s, app, p :: ps =>
    match recv ctx s app p addr port with
    | none => none
    | some out =>
      match recvAll out.tftp out.app ps with
      | none => none
      | some (s', app', evs) => some (s', app', out.events :: evs)

/-- The payload an event hands to the write callback. -/
def Event.payload? : Event H → Option (List UInt8)
  | .wrote _ p => some p.flatten
  | _ => none

/-- The payloads written in the course of a run, in order. -/
def written (evs : List (List (Event H))) : List (List UInt8) :=
  evs.flatten.filterMap Event.payload?

/-- The packet's block number is acknowledged to the client. -/
def Acked (p : Pbuf) (es : List (Event H)) : Prop :=
  ∀ n, ntohsAt (p.headD []) 1 = some n → Event.ack addr port n ∈ es

/-- What a packet gets that finds no connection. -/
def noConnection : List (Event H) := [.error addr port .accessViolation "No connection"]

/-- The write callback takes these chains one after another without an error. -/
def Accepts (h : H) : σ → List Pbuf → Prop
  | _, [] => True
  | app, p :: ps => 0 ≤ (ctx.write app h p).2 ∧ Accepts h (ctx.write app h p).1 ps

/-- A write connection with the client that waits for block `n`. -/
structure Receiving (s : TftpState H) (h : H) (n : UInt16) : Prop where
  handle : s.handle = some h
  modeWrite : s.modeWrite = true
  addr_eq : s.addr = addr
  port_eq : s.port = port
  blknum : s.blknum = n

/-- No connection. -/
structure Closed (s : TftpState H) : Prop where
  handle : s.handle = none
  addr_eq : s.addr = 0
  port_eq : s.port = 0

variable {ctx addr port} {s : TftpState H} {app : σ} {h : H} {n : UInt16}
  {payload : List UInt8}

/-! ## One packet -/

theorem Cut.ntohsAt_opcode (c : Cut payload) (n : UInt16) :
    ntohsAt ((c.packet n).headD []) 0 = some tftpData := by
  have := ntohsAt_be16 [] tftpData (be16 n ++ c.head) 0 rfl
  simpa [Cut.packet, List.append_assoc] using this

theorem Cut.ntohsAt_blknum (c : Cut payload) (n : UInt16) :
    ntohsAt ((c.packet n).headD []) 1 = some n :=
  ntohsAt_be16 (be16 tftpData) n c.head 1 rfl

theorem Cut.hide_packet (c : Cut payload) (n : UInt16) :
    (c.packet n).hide tftpHeaderLength = c.chain := by
  simp [Cut.packet, Cut.chain, Pbuf.hide, tftpHeaderLength, be16]

theorem Cut.flatten_chain (c : Cut payload) : c.chain.flatten = payload := c.joined

theorem Cut.totLen_chain (c : Cut payload) : c.chain.totLen = payload.length := by
  rw [Pbuf.totLen, c.flatten_chain]

theorem Receiving.not_stranger (hr : Receiving addr port s h n) :
    s.isStranger addr port = false := by
  simp [TftpState.isStranger, hr.addr_eq, hr.port_eq]

theorem Closed.not_stranger (hc : Closed s) : s.isStranger addr port = false := by
  simp [TftpState.isStranger, hc.addr_eq, hc.port_eq]

/-- A DATA packet from the client goes to the `TFTP_DATA` case. -/
theorem recv_packet (hs : s.isStranger addr port = false) (c : Cut payload) :
    recv ctx s app (c.packet n) addr port
      = recvData ctx { s with lastPkt := s.timer, retries := 0 } app (c.packet n) addr port := by
  unfold recv
  rw [hs, c.ntohsAt_opcode n]
  simp [tftpData, tftpRrq, tftpWrq]

/-- The block that is waited for has not the number of the one before it. -/
theorem ne_pred (n : UInt16) : ¬ (n.toNat : Int) = (n.toNat : Int) - 1 := by omega

/-- A block's number is the one before the next block's, save at the wrap. -/
theorem eq_pred_succ (hn : n ≠ 65535) : (n.toNat : Int) = ((n + 1).toNat : Int) - 1 := by
  have hlt := n.toNat_lt
  have hne : n.toNat ≠ 65535 := fun he => hn (UInt16.toNat_inj.mp he)
  have hadd : (n + 1).toNat = n.toNat + 1 := by
    rw [UInt16.toNat_add]
    exact Nat.mod_eq_of_lt (by simp; omega)
  omega

/-- The `TFTP_DATA` case on a write connection. -/
theorem recv_eq_writeBlock (hr : Receiving addr port s h n) (c : Cut payload) (m : UInt16) :
    recv ctx s app (c.packet m) addr port =
      let out :=
        writeBlock ctx { s with lastPkt := s.timer, retries := 0 } app h c.chain addr port m
      if payload.length < tftpMaxPayloadSize then
        let last := closeHandle ctx out.tftp out.app
        some { last with events := out.events ++ last.events }
      else some out := by
  rw [recv_packet hr.not_stranger]
  simp only [recvData, hr.handle, hr.modeWrite, c.ntohsAt_blknum, c.hide_packet, c.totLen_chain,
    Bool.not_true, Bool.false_eq_true, if_false]

theorem writeBlock_new (hr : Receiving addr port s h n) (p : Pbuf)
    (hok : 0 ≤ (ctx.write app h p).2) :
    writeBlock ctx s app h p addr port n
      = ⟨{ s with blknum := n + 1 }, (ctx.write app h p).1, [.wrote h p, .ack addr port n]⟩ := by
  rw [writeBlock, hr.blknum, if_neg (ne_pred n)]
  simp only [hr.addr_eq, hr.port_eq, if_neg (not_lt.mpr hok)]

theorem writeBlock_again (hr : Receiving addr port s h (n + 1)) (hn : n ≠ 65535) (p : Pbuf) :
    writeBlock ctx s app h p addr port n = ⟨s, app, [.ack addr port n]⟩ := by
  rw [writeBlock, hr.blknum, if_pos (eq_pred_succ hn), hr.addr_eq, hr.port_eq]

/-- Noting the time of a packet does not change the connection. -/
theorem Receiving.touch (hr : Receiving addr port s h n) :
    Receiving addr port { s with lastPkt := s.timer, retries := 0 } h n :=
  ⟨hr.handle, hr.modeWrite, hr.addr_eq, hr.port_eq, hr.blknum⟩

/-- **A new full block is written and acknowledged.** -/
theorem recv_new (hr : Receiving addr port s h n) (c : Cut payload)
    (hsize : payload.length = tftpMaxPayloadSize) (hok : 0 ≤ (ctx.write app h c.chain).2) :
    ∃ s', recv ctx s app (c.packet n) addr port
        = some ⟨s', (ctx.write app h c.chain).1, [.wrote h c.chain, .ack addr port n]⟩
      ∧ Receiving addr port s' h (n + 1) := by
  rw [recv_eq_writeBlock hr, writeBlock_new hr.touch _ hok, if_neg hsize.not_lt]
  exact ⟨_, rfl, hr.handle, hr.modeWrite, hr.addr_eq, hr.port_eq, rfl⟩

/-- **A further copy of a full block is acknowledged and not written.** -/
theorem recv_again (ctx : TftpContext H σ) (app : σ) (hr : Receiving addr port s h (n + 1))
    (hn : n ≠ 65535) (c : Cut payload) (hsize : payload.length = tftpMaxPayloadSize) :
    ∃ s', recv ctx s app (c.packet n) addr port = some ⟨s', app, [.ack addr port n]⟩
      ∧ Receiving addr port s' h (n + 1) := by
  rw [recv_eq_writeBlock hr, writeBlock_again hr.touch hn, if_neg hsize.not_lt]
  exact ⟨_, rfl, hr.touch⟩

/-- **The short block is written and acknowledged, and the connection closed.** -/
theorem recv_last (hr : Receiving addr port s h n) (c : Cut payload)
    (hsize : payload.length < tftpMaxPayloadSize) (hok : 0 ≤ (ctx.write app h c.chain).2) :
    ∃ s' app', recv ctx s app (c.packet n) addr port
        = some ⟨s', app', [.wrote h c.chain, .ack addr port n, .closed h]⟩ ∧ Closed s' := by
  rw [recv_eq_writeBlock hr, writeBlock_new hr.touch _ hok, if_pos hsize]
  simp only [closeHandle, hr.handle]
  exact ⟨_, _, rfl, rfl, rfl, rfl⟩

/-- **Without a connection nothing is written or acknowledged.** -/
theorem recv_closed (ctx : TftpContext H σ) (app : σ) (addr : UInt32) (port n : UInt16)
    (hc : Closed s) (c : Cut payload) :
    ∃ s', recv ctx s app (c.packet n) addr port = some ⟨s', app, noConnection addr port⟩
      ∧ Closed s' := by
  rw [recv_packet hc.not_stranger]
  simp only [recvData, hc.handle]
  exact ⟨_, rfl, rfl, hc.addr_eq, hc.port_eq⟩

/-! ## Sequences of packets -/

theorem recvAll_append : ∀ {ps qs : List Pbuf} {s s₁ : TftpState H} {app app₁ : σ}
    {evs : List (List (Event H))}, recvAll ctx addr port s app ps = some (s₁, app₁, evs) →
    recvAll ctx addr port s app (ps ++ qs) =
      (recvAll ctx addr port s₁ app₁ qs).map fun r => (r.1, r.2.1, evs ++ r.2.2)
  | [], qs, s, s₁, app, app₁, evs, hp => by
    obtain ⟨rfl, rfl, rfl⟩ : s = s₁ ∧ app = app₁ ∧ [] = evs := by simpa [recvAll] using hp
    simp
  | p :: ps, qs, s, s₁, app, app₁, evs, hp => by
    rw [List.cons_append, recvAll]
    rw [recvAll] at hp
    split at hp
    · simp at hp
    · next out ho =>
      split at hp
      · simp at hp
      · next s' app' evs' hps =>
        obtain ⟨rfl, rfl, rfl⟩ : s' = s₁ ∧ app' = app₁ ∧ out.events :: evs' = evs := by
          simpa using hp
        simp only [recvAll_append hps]
        cases recvAll ctx addr port s' app' qs <;> rfl

/-- The further copies of a full block: one acknowledgement each. -/
theorem recvAll_again (ctx : TftpContext H σ) (app : σ) :
    ∀ (cs : List (Cut payload)) {s : TftpState H},
    Receiving addr port s h (n + 1) → n ≠ 65535 ∨ cs = [] →
    payload.length = tftpMaxPayloadSize →
    ∃ s', recvAll ctx addr port s app (cs.map (·.packet n))
        = some (s', app, cs.map fun _ => [.ack addr port n])
      ∧ Receiving addr port s' h (n + 1)
  | [], s, hr, _, _ => ⟨s, rfl, hr⟩
  | c :: cs, s, hr, hn, hsize => by
    have hn' : n ≠ 65535 := hn.resolve_right (List.cons_ne_nil _ _)
    obtain ⟨s₁, he, hr₁⟩ := recv_again ctx app hr hn' c hsize
    obtain ⟨s', hrun, hr'⟩ := recvAll_again ctx app cs hr₁ (Or.inl hn') hsize
    refine ⟨s', ?_, hr'⟩
    simp only [List.map_cons, recvAll, he, hrun]

/-- The packets of a connection that is closed. -/
theorem recvAll_closed (ctx : TftpContext H σ) (app : σ) (addr : UInt32) (port n : UInt16) :
    ∀ (cs : List (Cut payload)) {s : TftpState H}, Closed s →
    ∃ s', recvAll ctx addr port s app (cs.map (·.packet n))
      = some (s', app, cs.map fun _ => noConnection addr port)
  | [], s, _ => ⟨s, rfl⟩
  | c :: cs, s, hc => by
    obtain ⟨s₁, he, hc₁⟩ := recv_closed ctx app addr port n hc c
    obtain ⟨s', hrun⟩ := recvAll_closed ctx app addr port n cs hc₁
    refine ⟨s', ?_⟩
    simp only [List.map_cons, recvAll, he, hrun]

/-- The application after it was handed these chains. -/
def writeAll (ctx : TftpContext H σ) (h : H) (app : σ) (ps : List Pbuf) : σ :=
  ps.foldl (fun app p => (ctx.write app h p).1) app

theorem accepts_append : ∀ {ps qs : List Pbuf} {app : σ},
    Accepts ctx h app (ps ++ qs) ↔
      Accepts ctx h app ps ∧ Accepts ctx h (writeAll ctx h app ps) qs
  | [], _, _ => by simp [Accepts, writeAll]
  | p :: ps, qs, app => by
    rw [List.cons_append, Accepts, Accepts, accepts_append, and_assoc]
    rfl

/-- Blocks numbered 65535 modulo 2^16 come only once (the first block has number `i`). -/
def WrapOnce (i : Nat) (bs : List Block) : Prop :=
  ∀ j b, bs[j]? = some b → (i + j) % 65536 = 65535 → b.again = []

theorem WrapOnce.tail {i : Nat} {b : Block} {bs : List Block} (hw : WrapOnce i (b :: bs)) :
    WrapOnce (i + 1) bs := by
  intro j b' hj hmod
  exact hw (j + 1) b' hj (by rw [← hmod]; congr 1; omega)

theorem WrapOnce.head {i : Nat} {b : Block} {bs : List Block} (hw : WrapOnce i (b :: bs)) :
    UInt16.ofNat i ≠ 65535 ∨ b.again = [] := by
  by_cases hi : i % 65536 = 65535
  · exact Or.inr (hw 0 b rfl hi)
  · refine Or.inl fun he => hi ?_
    have := congrArg UInt16.toNat he
    simpa using this

theorem written_append (es fs : List (List (Event H))) :
    written (es ++ fs) = written es ++ written fs := by
  simp [written]

theorem written_replies {α : Type} (xs : List α) (es : List (Event H))
    (hes : es.filterMap Event.payload? = []) : written (xs.map fun _ => es) = [] := by
  induction xs with
  | nil => rfl
  | cons x xs ih =>
    rw [List.map_cons, written, List.flatten_cons, List.filterMap_append, hes]
    exact ih

/-- All the copies of a full block. -/
theorem recvAll_block (b : Block) (hr : Receiving addr port s h n)
    (hsize : b.payload.length = tftpMaxPayloadSize) (hn : n ≠ 65535 ∨ b.again = [])
    (hok : 0 ≤ (ctx.write app h b.first.chain).2) :
    ∃ s' evs, recvAll ctx addr port s app (b.packets n)
        = some (s', (ctx.write app h b.first.chain).1, evs)
      ∧ Receiving addr port s' h (n + 1)
      ∧ written evs = [b.payload]
      ∧ List.Forall₂ (Acked addr port) (b.packets n) evs := by
  obtain ⟨s₁, he, hr₁⟩ := recv_new hr b.first hsize hok
  obtain ⟨s', hrun, hr'⟩ := recvAll_again ctx (ctx.write app h b.first.chain).1 b.again hr₁ hn hsize
  refine ⟨s', [.wrote h b.first.chain, .ack addr port n] :: b.again.map fun _ =>
    [.ack addr port n], ?_, hr', ?_, ?_⟩
  · simp only [Block.packets, recvAll, he, hrun]
  · have hagain := written_replies b.again ([.ack addr port n] : List (Event H)) rfl
    rw [← List.singleton_append, written_append, hagain, List.append_nil]
    simp [written, Event.payload?, b.first.flatten_chain]
  · refine List.Forall₂.cons ?_ ?_
    · intro m hm
      rw [b.first.ntohsAt_blknum] at hm
      simp [Option.some.inj hm]
    · rw [List.forall₂_map_left_iff, List.forall₂_map_right_iff, List.forall₂_same]
      intro c _ m hm
      rw [c.ntohsAt_blknum] at hm
      simp [Option.some.inj hm]

/-- Full blocks from number `i` on. -/
theorem recvAll_full : ∀ (bs : List Block) (i : Nat) {s : TftpState H} {app : σ},
    Receiving addr port s h (UInt16.ofNat i) →
    (∀ b ∈ bs, b.payload.length = tftpMaxPayloadSize) → WrapOnce i bs →
    Accepts ctx h app (bs.map (·.first.chain)) →
    ∃ s' evs, recvAll ctx addr port s app (packetsFrom i bs)
        = some (s', writeAll ctx h app (bs.map (·.first.chain)), evs)
      ∧ Receiving addr port s' h (UInt16.ofNat (i + bs.length))
      ∧ written evs = bs.map (·.payload)
      ∧ List.Forall₂ (Acked addr port) (packetsFrom i bs) evs
  | [], i, s, app, hr, _, _, _ => ⟨s, [], rfl, hr, rfl, .nil⟩
  | b :: bs, i, s, app, hr, hsize, hwrap, hok => by
    obtain ⟨s₁, evs₁, he₁, hr₁, hw₁, ha₁⟩ :=
      recvAll_block b hr (hsize b List.mem_cons_self) hwrap.head hok.1
    have hnext : UInt16.ofNat i + 1 = UInt16.ofNat (i + 1) := by
      rw [UInt16.ofNat_add]; rfl
    rw [hnext] at hr₁
    obtain ⟨s₂, evs₂, he₂, hr₂, hw₂, ha₂⟩ := recvAll_full bs (i + 1) hr₁
      (fun b' hb' => hsize b' (List.mem_cons_of_mem _ hb')) hwrap.tail hok.2
    refine ⟨s₂, evs₁ ++ evs₂, ?_, ?_, ?_, ?_⟩
    · rw [packetsFrom, recvAll_append he₁, he₂]
      rfl
    · rw [List.length_cons, ← Nat.add_assoc, Nat.add_right_comm]
      exact hr₂
    · rw [written_append, hw₁, hw₂]
      rfl
    · exact List.rel_append ha₁ ha₂

/-! ## Opening the connection -/

/-! ## The whole transfer -/

/--
**A transfer to the server.**  While the application accepts the blocks, and blocks numbered 65535
come once: every payload is written exactly once and in order, and every copy of a block is
acknowledged, up to the first copy of the short block.  That one closes the connection, and further
copies of it are refused without being written.
-/
theorem recvAll_transfer (t : Transfer) (hr : Receiving addr port s h 1)
    (hok : Accepts ctx h app (t.blocks.map (·.first.chain))) (hwrap : WrapOnce 1 t.full) :
    ∃ s' app' evs, recvAll ctx addr port s app t.packets
        = some (s', app', evs ++ t.late.map fun _ => noConnection addr port)
      ∧ written (evs ++ t.late.map fun _ => noConnection addr port) = t.blocks.map (·.payload)
      ∧ List.Forall₂ (Acked addr port) t.inTime evs := by
  rw [Transfer.blocks, List.map_append, accepts_append] at hok
  obtain ⟨s₁, evs₁, he₁, hr₁, hw₁, ha₁⟩ := recvAll_full t.full 1 hr t.full_size hwrap hok.1
  have hr₁ : Receiving addr port s₁ h t.lastNumber := by
    rw [Transfer.lastNumber, Nat.add_comm]
    exact hr₁
  obtain ⟨s₂, app₂, he₂, hc₂⟩ := recv_last hr₁ t.last.first t.last_size hok.2.1
  obtain ⟨s₃, he₃⟩ := recvAll_closed ctx app₂ addr port t.lastNumber t.last.again hc₂
  have hlate : written (t.late.map fun _ => (noConnection addr port : List (Event H))) = [] :=
    written_replies t.late _ rfl
  refine ⟨s₃, app₂, evs₁ ++ [[.wrote h t.last.first.chain, .ack addr port t.lastNumber,
    .closed h]], ?_, ?_, ?_⟩
  · rw [Transfer.packets_eq, Transfer.inTime, List.append_assoc, recvAll_append he₁,
      List.singleton_append, recvAll, Transfer.late]
    simp only [he₂, he₃]
    simp [Function.comp_def]
  · rw [written_append, hlate, List.append_nil, written_append, hw₁, Transfer.blocks,
      List.map_append]
    simp [written, Event.payload?, t.last.first.flatten_chain]
  · refine List.rel_append ha₁ (List.Forall₂.cons ?_ .nil)
    intro m hm
    rw [t.last.first.ntohsAt_blknum] at hm
    simp [Option.some.inj hm]

end

/-! ## A short transfer -/

/-- An application that takes everything. -/
def sinkContext : TftpContext Unit Unit where
  «open» app _ _ _ := (app, some ())
  close app _ := app
  read app _ _ := (app, 0, [])
  write app _ _ := (app, 0)

/-- The server after it granted a write request to port 4096 of address 10.0.0.1. -/
def grantedState : TftpState Unit where
  handle := some ()
  lastData := none
  addr := 0x0A000001
  port := 4096
  timer := 0
  lastPkt := 0
  blknum := 1
  retries := 0
  modeWrite := true

theorem grantedState_receiving : Receiving 0x0A000001 4096 grantedState () 1 :=
  ⟨rfl, rfl, rfl, rfl, rfl⟩

/-- One 32-bit word, brought by a packet that arrives twice. -/
def wordTwice : Transfer where
  full := []
  last :=
    { payload := [0, 0, 0, 1]
      first := ⟨[0, 0, 0, 1], [], rfl⟩
      again := [⟨[0, 0], [[0, 1]], rfl⟩] }
  full_size := by simp
  last_size := by simp [tftpMaxPayloadSize]

/-- The word is written once; its second copy is refused. -/
theorem recvAll_transfer_wordTwice :
    ∃ s' app' evs, recvAll sinkContext 0x0A000001 4096 grantedState () wordTwice.packets
        = some (s', app', evs ++ wordTwice.late.map fun _ => noConnection 0x0A000001 4096)
      ∧ written (evs ++ wordTwice.late.map fun _ => noConnection 0x0A000001 4096)
        = [[0, 0, 0, 1]]
      ∧ List.Forall₂ (Acked 0x0A000001 4096) wordTwice.inTime evs :=
  recvAll_transfer wordTwice grantedState_receiving
    ⟨by simp [sinkContext], trivial⟩ (by intro j b hj; simp [wordTwice] at hj)

theorem recvAll_wordTwice :
    (recvAll sinkContext 0x0A000001 4096 grantedState () wordTwice.packets).map (·.2.2)
      = some [[.wrote () [[0, 0, 0, 1]], .ack 0x0A000001 4096 1, .closed ()],
        noConnection 0x0A000001 4096] := by
  decide

/-- **Not every copy is acknowledged**: the connection is gone when the second one arrives. -/
theorem wordTwice_not_acked :
    Receiving 0x0A000001 4096 grantedState () 1
    ∧ Accepts sinkContext () () (wordTwice.blocks.map (·.first.chain))
    ∧ ¬ ∃ s' app' evs,
        recvAll sinkContext 0x0A000001 4096 grantedState () wordTwice.packets
          = some (s', app', evs)
        ∧ written evs = wordTwice.blocks.map (·.payload)
        ∧ List.Forall₂ (Acked 0x0A000001 4096) wordTwice.packets evs := by
  refine ⟨grantedState_receiving, ⟨by simp [sinkContext], trivial⟩, ?_⟩
  rintro ⟨s', app', evs, hrun, -, hacked⟩
  have hevs := recvAll_wordTwice
  rw [hrun, Option.map_some, Option.some.injEq] at hevs
  subst hevs
  obtain _ | ⟨-, _ | ⟨hsecond, -⟩⟩ := hacked
  have hmem := hsecond 1 (by decide)
  simp [noConnection] at hmem

end MlibDevel.Jam
