import MlibDevel.Jam.TftpServer

/-!
# What the server does to others

The server has one connection, and what it sends goes to the peer of that connection.  So a client
whose connection is gone gets nothing any more but errors (`recv_elsewhere`, `tftpTmr_elsewhere`),
and a client that has the connection is not disturbed by others (`recv_stranger`).
-/

namespace MlibDevel.Jam

variable {H σ : Type}

/-! ## Where packets go -/

/-- The peer to which an event sends a block or an acknowledgement -/
def Event.peer? : Event H → Option (UInt32 × UInt16)
  | .ack addr port _ | .data addr port _ => some (addr, port)
  | _ => none

/-- The blocks sent to a client -/
def dataTo (addr : UInt32) (port : UInt16) (es : List (Event H)) : List (List UInt8) :=
  es.filterMap fun
    | .data a q pkt => if a = addr ∧ q = port then some pkt else none
    | _ => none

/-- The acknowledgements sent to a client -/
def acksTo (addr : UInt32) (port : UInt16) (es : List (Event H)) : List UInt16 :=
  es.filterMap fun
    | .ack a q n => if a = addr ∧ q = port then some n else none
    | _ => none

/-- Nothing is sent to a client but errors. -/
def Silent (addr : UInt32) (port : UInt16) (es : List (Event H)) : Prop :=
  ∀ e ∈ es, e.peer? ≠ some (addr, port)

theorem Silent.dataTo {addr : UInt32} {port : UInt16} {es : List (Event H)}
    (h : Silent addr port es) : dataTo addr port es = [] := by
  rw [Jam.dataTo, List.filterMap_eq_nil_iff]
  intro e he
  have hpeer := h e he
  cases e with
  | data a q pkt =>
    refine if_neg ?_
    rintro ⟨rfl, rfl⟩
    exact hpeer rfl
  | _ => rfl

theorem Silent.acksTo {addr : UInt32} {port : UInt16} {es : List (Event H)}
    (h : Silent addr port es) : acksTo addr port es = [] := by
  rw [Jam.acksTo, List.filterMap_eq_nil_iff]
  intro e he
  have hpeer := h e he
  cases e with
  | ack a q n =>
    refine if_neg ?_
    rintro ⟨rfl, rfl⟩
    exact hpeer rfl
  | _ => rfl

/-! ## The connection after a step -/

/-- The connection is still the same, or it is closed. -/
def Stays (s s' : TftpState H) : Prop :=
  (s'.addr = s.addr ∧ s'.port = s.port ∧ (s.handle = none → s'.handle = none))
    ∨ (s'.handle = none ∧ s'.addr = 0 ∧ s'.port = 0)

/-- The connection stays, and what is sent goes to its peer. -/
structure KeepsPeer (s : TftpState H) (out : Outcome H σ) : Prop where
  stays : Stays s out.tftp
  peers : ∀ e ∈ out.events, ∀ peer, e.peer? = some peer → peer = (s.addr, s.port)

variable (ctx : TftpContext H σ)

theorem closeHandle_keepsPeer (s : TftpState H) (app : σ) :
    KeepsPeer s (closeHandle ctx s app) := by
  unfold closeHandle
  cases hh : s.handle with
  | none => exact ⟨.inr ⟨rfl, rfl, rfl⟩, fun e he => absurd he List.not_mem_nil⟩
  | some h =>
    refine ⟨.inr ⟨rfl, rfl, rfl⟩, fun e he peer hpeer => ?_⟩
    rw [List.mem_singleton.mp he] at hpeer
    cases hpeer

theorem resendData_peers (s : TftpState H) :
    ∀ e ∈ resendData s, ∀ peer, e.peer? = some peer → peer = (s.addr, s.port) := by
  intro e he peer hpeer
  unfold resendData at he
  cases hlast : s.lastData with
  | none =>
    rw [hlast] at he
    exact absurd he List.not_mem_nil
  | some pkt =>
    rw [hlast] at he
    rw [List.mem_singleton.mp he] at hpeer
    exact (Option.some.inj hpeer).symm

/-- An error goes before what is sent. -/
theorem KeepsPeer.error {s : TftpState H} {out : Outcome H σ} (h : KeepsPeer s out) (addr : UInt32)
    (port : UInt16) (err : TftpError) (str : String) :
    KeepsPeer s { out with events := .error addr port err str :: out.events } := by
  refine ⟨h.stays, fun e he peer hpeer => ?_⟩
  rcases List.mem_cons.mp he with rfl | he
  · cases hpeer
  · exact h.peers e he peer hpeer

/-- Only an error is sent. -/
theorem keepsPeer_error (s : TftpState H) (app : σ) (addr : UInt32) (port : UInt16)
    (err : TftpError) (str : String) : KeepsPeer s ⟨s, app, [.error addr port err str]⟩ := by
  refine ⟨.inl ⟨rfl, rfl, id⟩, fun e he peer hpeer => ?_⟩
  rw [List.mem_singleton.mp he] at hpeer
  cases hpeer

/-- What is not about the connection does not matter. -/
theorem KeepsPeer.of_same {s s₁ : TftpState H} {out : Outcome H σ} (h : KeepsPeer s₁ out)
    (haddr : s₁.addr = s.addr) (hport : s₁.port = s.port) (hhandle : s₁.handle = s.handle) :
    KeepsPeer s out := by
  obtain ⟨hstays, hpeers⟩ := h
  rw [Stays, haddr, hport, hhandle] at hstays
  rw [haddr, hport] at hpeers
  exact ⟨hstays, hpeers⟩

theorem sendData_keepsPeer (s : TftpState H) (app : σ) (h : H) :
    KeepsPeer s (sendData ctx s app h) := by
  unfold sendData
  dsimp only
  split_ifs
  · exact ((closeHandle_keepsPeer ctx _ _).of_same rfl rfl rfl).error _ _ _ _
  · have hresend := fun pkt => resendData_peers { s with lastData := some pkt }
    exact ⟨.inl ⟨rfl, rfl, id⟩, hresend _⟩

/-- One call after another. -/
theorem KeepsPeer.trans {s : TftpState H} {out last : Outcome H σ} (h : KeepsPeer s out)
    (hlast : KeepsPeer out.tftp last) (hpeers : ∀ e ∈ last.events, e.peer? = none) :
    KeepsPeer s { last with events := out.events ++ last.events } := by
  refine ⟨?_, fun e he peer hpeer => ?_⟩
  · rcases hlast.stays with ⟨haddr, hport, hnone⟩ | hclosed
    · rcases h.stays with ⟨haddr', hport', hnone'⟩ | ⟨hh, haddr', hport'⟩
      · exact .inl ⟨haddr.trans haddr', hport.trans hport', hnone ∘ hnone'⟩
      · exact .inr ⟨hnone hh, haddr.trans haddr', hport.trans hport'⟩
    · exact .inr hclosed
  · rcases List.mem_append.mp he with he | he
    · exact h.peers e he peer hpeer
    · rw [hpeers e he] at hpeer
      cases hpeer

theorem closeHandle_peers (s : TftpState H) (app : σ) :
    ∀ e ∈ (closeHandle ctx s app).events, e.peer? = none := by
  intro e he
  unfold closeHandle at he
  cases hh : s.handle with
  | none =>
    rw [hh] at he
    exact absurd he List.not_mem_nil
  | some h =>
    rw [hh] at he
    rw [List.mem_singleton.mp he]
    rfl

theorem writeBlock_keepsPeer (s : TftpState H) (app : σ) (h : H) (p : Pbuf) (addr : UInt32)
    (port blknum : UInt16) : KeepsPeer s (writeBlock ctx s app h p addr port blknum) := by
  unfold writeBlock
  split_ifs
  · refine ⟨.inl ⟨rfl, rfl, id⟩, fun e he peer hpeer => ?_⟩
    rw [List.mem_singleton.mp he] at hpeer
    exact (Option.some.inj hpeer).symm
  · dsimp only
    split_ifs
    · have hclose := closeHandle_keepsPeer ctx s (ctx.write app h p).1
      refine ⟨hclose.stays, fun e he peer hpeer => ?_⟩
      rcases List.mem_cons.mp he with rfl | he
      · cases hpeer
      · exact (hclose.error _ _ _ _).peers e he peer hpeer
    · refine ⟨.inl ⟨rfl, rfl, id⟩, fun e he peer hpeer => ?_⟩
      rcases List.mem_cons.mp he with rfl | he
      · cases hpeer
      · rw [List.mem_singleton.mp he] at hpeer
        exact (Option.some.inj hpeer).symm

variable {s : TftpState H} {app : σ} {p : Pbuf} {addr a : UInt32} {port q : UInt16}
  {out : Outcome H σ}

theorem recvData_keepsPeer (h : recvData ctx s app p a q = some out) : KeepsPeer s out := by
  unfold recvData at h
  split at h
  · rw [← Option.some.inj h]
    exact keepsPeer_error ..
  · next hd _ =>
    split at h
    · rw [← Option.some.inj h]
      exact keepsPeer_error ..
    · split at h
      · cases h
      · next blknum _ =>
        have hblock := writeBlock_keepsPeer ctx s app hd (p.hide tftpHeaderLength) a q blknum
        dsimp only at h
        split at h
        · rw [← Option.some.inj h]
          exact hblock.trans (closeHandle_keepsPeer ctx _ _) (closeHandle_peers ctx _ _)
        · rw [← Option.some.inj h]
          exact hblock

theorem recvAck_keepsPeer (h : recvAck ctx s app p a q = some out) : KeepsPeer s out := by
  unfold recvAck at h
  split at h
  · rw [← Option.some.inj h]
    exact keepsPeer_error ..
  · split at h
    · rw [← Option.some.inj h]
      exact keepsPeer_error ..
    · split at h
      · cases h
      · split at h
        · rw [← Option.some.inj h]
          exact keepsPeer_error ..
        · dsimp only at h
          split at h
          · rw [← Option.some.inj h]
            exact (sendData_keepsPeer ctx _ _ _).of_same rfl rfl rfl
          · rw [← Option.some.inj h]
            exact closeHandle_keepsPeer ctx _ _

/-- **A request** without a connection gets one with its sender, or none is opened. -/
theorem recvRequest_keepsPeer {write : Bool} (h : recvRequest ctx s app p a q write = some out) :
    KeepsPeer s out ∨ ∃ s₁ : TftpState H, s₁.addr = a ∧ s₁.port = q ∧ KeepsPeer s₁ out := by
  unfold recvRequest at h
  dsimp only at h
  split at h
  · rw [← Option.some.inj h]
    exact .inl (keepsPeer_error ..)
  split at h
  · rw [← Option.some.inj h]
    exact .inl (keepsPeer_error ..)
  split at h
  · cases h
  split at h
  · rw [← Option.some.inj h]
    exact .inl (keepsPeer_error ..)
  split at h
  · cases h
  split at h
  · next hnone =>
    rw [← Option.some.inj h]
    refine .inl ⟨.inl ⟨rfl, rfl, fun _ => hnone⟩, fun e he peer hpeer => ?_⟩
    rcases List.mem_cons.mp he with rfl | he
    · cases hpeer
    · rw [List.mem_singleton.mp he] at hpeer
      cases hpeer
  · next hd _ =>
    split at h
    · rw [← Option.some.inj h]
      refine .inr ⟨_, rfl, rfl, .inl ⟨rfl, rfl, id⟩, fun e he peer hpeer => ?_⟩
      rcases List.mem_cons.mp he with rfl | he
      · cases hpeer
      · rw [List.mem_singleton.mp he] at hpeer
        exact (Option.some.inj hpeer).symm
    · rw [← Option.some.inj h]
      have hsend := sendData_keepsPeer ctx { s with
        handle := (ctx.open app (cstr (p.copyPartial (p.memfindNul 2 - 1) 2))
          (cstr (p.copyPartial (p.memfindNul (p.memfindNul 2 + 1) - p.memfindNul 2)
            (p.memfindNul 2 + 1))) write).2
        blknum := 1, addr := a, port := q, modeWrite := false }
        (ctx.open app (cstr (p.copyPartial (p.memfindNul 2 - 1) 2))
          (cstr (p.copyPartial (p.memfindNul (p.memfindNul 2 + 1) - p.memfindNul 2)
            (p.memfindNul 2 + 1))) write).1 hd
      refine .inr ⟨_, rfl, rfl, hsend.stays, fun e he peer hpeer => ?_⟩
      rcases List.mem_cons.mp he with rfl | he
      · cases hpeer
      · exact hsend.peers e he peer hpeer

/-- **A packet** is for the connection, or it is a request that gets one. -/
theorem recv_keepsPeer (h : recv ctx s app p a q = some out) :
    KeepsPeer s out ∨ (s.isStranger a q = false ∧ ∃ s₁ : TftpState H, s₁.addr = a ∧ s₁.port = q
      ∧ KeepsPeer s₁ out
      ∧ (ntohsAt (p.headD []) 0 = some tftpRrq ∨ ntohsAt (p.headD []) 0 = some tftpWrq)) := by
  unfold recv at h
  split at h
  · rw [← Option.some.inj h]
    exact .inl (keepsPeer_error ..)
  · next hs =>
    have hs : s.isStranger a q = false := Bool.eq_false_iff.mpr hs
    have htouch : ∀ {out : Outcome H σ}, KeepsPeer { s with lastPkt := s.timer, retries := 0 } out →
        KeepsPeer s out := fun h => h.of_same rfl rfl rfl
    split at h
    · cases h
    · next opcode hop =>
      dsimp only at h
      split at h
      · next hrrq =>
        rcases recvRequest_keepsPeer ctx h with hkeeps | ⟨s₁, haddr, hport, hkeeps⟩
        · exact .inl (htouch hkeeps)
        · exact .inr ⟨hs, s₁, haddr, hport, hkeeps, .inl (by rw [hop, hrrq])⟩
      · split at h
        · next hwrq =>
          rcases recvRequest_keepsPeer ctx h with hkeeps | ⟨s₁, haddr, hport, hkeeps⟩
          · exact .inl (htouch hkeeps)
          · exact .inr ⟨hs, s₁, haddr, hport, hkeeps, .inr (by rw [hop, hwrq])⟩
        · split at h
          · exact .inl (htouch (recvData_keepsPeer ctx h))
          · split at h
            · exact .inl (htouch (recvAck_keepsPeer ctx h))
            · rw [← Option.some.inj h]
              exact .inl (htouch (keepsPeer_error ..))

theorem tftpTmr_keepsPeer (s : TftpState H) (app : σ) : KeepsPeer s (tftpTmr ctx s app) := by
  have htouch : ∀ {out : Outcome H σ},
    KeepsPeer { s with timer := s.timer + 1 } out → KeepsPeer s out :=
    fun h => h.of_same rfl rfl rfl
  have hquiet : KeepsPeer s ⟨{ s with timer := s.timer + 1 }, app, []⟩ :=
    ⟨.inl ⟨rfl, rfl, id⟩, fun e he => absurd he List.not_mem_nil⟩
  unfold tftpTmr
  dsimp only
  split
  · exact hquiet
  · split
    · split
      · have hresend := resendData_peers { s with timer := s.timer + 1 }
        exact ⟨.inl ⟨rfl, rfl, id⟩, hresend⟩
      · exact htouch (closeHandle_keepsPeer ctx _ _)
    · exact hquiet

/-! ## A client without a connection -/

/-- The server has no connection, or one with another client. -/
def Elsewhere (addr : UInt32) (port : UInt16) (s : TftpState H) : Prop :=
  (s.handle = none ∧ s.addr = 0 ∧ s.port = 0)
    ∨ (s.addr ≠ 0 ∧ s.port ≠ 0 ∧ ¬(s.addr = addr ∧ s.port = port))

section Elsewhere

variable (haddr : addr ≠ 0)

theorem Stays.elsewhere {s' : TftpState H} (h : Elsewhere addr port s) (hstays : Stays s s') :
    Elsewhere addr port s' := by
  rcases hstays with ⟨ha, hp, hnone⟩ | hclosed
  · rw [Elsewhere, ha, hp]
    exact h.imp_left fun ⟨hh, hzero⟩ => ⟨hnone hh, hzero⟩
  · exact .inl hclosed

include haddr

theorem Elsewhere.ne_peer (h : Elsewhere addr port s) : (s.addr, s.port) ≠ (addr, port) := by
  intro heq
  obtain ⟨ha, hp⟩ := Prod.mk.inj heq
  rcases h with ⟨-, hzero, -⟩ | ⟨-, -, hne⟩
  · exact haddr (ha.symm.trans hzero)
  · exact hne ⟨ha, hp⟩

theorem KeepsPeer.elsewhere (h : Elsewhere addr port s) (hkeeps : KeepsPeer s out) :
    Elsewhere addr port out.tftp ∧ Silent addr port out.events :=
  ⟨hkeeps.stays.elsewhere h,
    fun e he hpeer => h.ne_peer haddr (hkeeps.peers e he _ hpeer).symm⟩

/-- **A client without a connection hears nothing** when a packet of another client comes. -/
theorem recv_elsewhere (h : Elsewhere addr port s) (ha : a ≠ 0) (hq : q ≠ 0)
    (hother : ¬(a = addr ∧ q = port)) (hrecv : recv ctx s app p a q = some out) :
    Elsewhere addr port out.tftp ∧ Silent addr port out.events := by
  rcases recv_keepsPeer ctx hrecv with hkeeps | ⟨-, s₁, rfl, rfl, hkeeps, -⟩
  · exact hkeeps.elsewhere haddr h
  · exact hkeeps.elsewhere haddr (.inr ⟨ha, hq, hother⟩)

/-- Nor when one of its own comes that is no request. -/
theorem recv_own_elsewhere (h : Elsewhere addr port s)
    (hrrq : ntohsAt (p.headD []) 0 ≠ some tftpRrq) (hwrq : ntohsAt (p.headD []) 0 ≠ some tftpWrq)
    (hrecv : recv ctx s app p addr port = some out) :
    Elsewhere addr port out.tftp ∧ Silent addr port out.events := by
  rcases recv_keepsPeer ctx hrecv with hkeeps | ⟨-, -, -, -, -, hop | hop⟩
  · exact hkeeps.elsewhere haddr h
  · exact absurd hop hrrq
  · exact absurd hop hwrq

theorem tftpTmr_elsewhere (h : Elsewhere addr port s) (app : σ) :
    Elsewhere addr port (tftpTmr ctx s app).tftp ∧ Silent addr port (tftpTmr ctx s app).events :=
  (tftpTmr_keepsPeer ctx s app).elsewhere haddr h

end Elsewhere

/-! ## A client with a connection -/

/-- **Other clients are turned away.** -/
theorem recv_stranger (haddr : s.addr ≠ 0) (hport : s.port ≠ 0)
    (hother : ¬(a = s.addr ∧ q = s.port)) (app : σ) (p : Pbuf) :
    recv ctx s app p a q = some ⟨s, app, [.error a q .accessViolation
      "Only one connection at a time is supported"]⟩ := by
  have hs : s.isStranger a q = true := by
    rw [TftpState.isStranger, Bool.or_eq_true, Bool.and_eq_true, Bool.and_eq_true]
    by_cases hq : q = s.port
    · exact .inr ⟨decide_eq_true haddr, decide_eq_true fun ha => hother ⟨ha.symm, hq⟩⟩
    · exact .inl ⟨decide_eq_true hport, decide_eq_true hq⟩
  rw [recv, if_pos hs]

end MlibDevel.Jam
