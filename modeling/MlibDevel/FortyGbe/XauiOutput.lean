import Mathlib.Data.Nat.Init
import MlibDevel.FortyGbe.GmiiToXaui
import MlibDevel.Lib.Cycles

/-!
# The output of the XGMII words (`gmii_to_xaui_translator.vhd`)

When the number of words of a frame can be read, the start word and that many words of the FIFO are
put on the XGMII.

The empty flags of the two FIFOs are inputs: a word can be read some time after it was written only.

Main results: `translator_delivers` (what is on the XGMII are the frames that were received, in
order, with a start word and an idle word at least around each).
-/

namespace MlibDevel.FortyGbe

/-! ## The registers -/

/-- `T_GEN_STATE` -/
inductive GenState
  | genIdles
  | readPacketSize
  | outputPacket
  deriving DecidableEq, Repr

/-- `C_START_WORD` -/
def startWord : Xlgmii where
  c := fun k => k == 0
  d := fun k => if k = 0 then rS else if k = 7 then preambleSfd else 0x55

/-- The registers that are clocked with `xaui_clk`, with the outputs of the FIFOs. -/
structure XauiTx where
  genState : GenState
  xauiOutputCount : BitVec 16
  fifoRdreqZ : Bool
  fifoDout : Xlgmii
  packetByteCountDout : BitVec 16

namespace XauiTx

/-- `packet_byte_count_rdreq` -/
def packetByteCountRdreq (x : XauiTx) (countEmpty : Bool) : Bool :=
  x.genState == .readPacketSize && !countEmpty

/-- `gmii_to_xaui_fifo_rdreq` -/
def fifoRdreq (x : XauiTx) (fifoEmpty : Bool) : Bool := x.genState == .outputPacket && !fifoEmpty

/-- `gen_xgmii_rxd_rxc` -/
def nextXgmii (x : XauiTx) (rdreq : Bool) : Xlgmii :=
  if rdreq && !x.fifoRdreqZ then startWord
  else if x.fifoRdreqZ then x.fifoDout
  else iblockR

/-- `gen_current_gen_state` -/
def nextGenState (x : XauiTx) (countEmpty : Bool) : GenState :=
  match x.genState with
  | .genIdles => if countEmpty then .genIdles else .readPacketSize
  | .readPacketSize => .outputPacket
  | .outputPacket => if x.xauiOutputCount = x.packetByteCountDout then .genIdles else .outputPacket

end XauiTx

/-- The translator, and in the FIFOs what has not been read. -/
structure Translator where
  gmii : GmiiRx
  xaui : XauiTx
  fifo : List Xlgmii
  counts : List (BitVec 16)

namespace Translator

/-- A rising edge of `gmii_clk`. -/
def gmiiEdge (s : Translator) (i : GmiiIn) : Translator :=
  { s with
    gmii := s.gmii.edge i
    fifo := s.fifo ++ s.gmii.written
    counts := s.counts ++ s.gmii.countWritten }

/-- A rising edge of `xaui_clk`. -/
def xauiEdge (s : Translator) (fifoEmpty countEmpty : Bool) : Translator :=
  let rdreq := s.xaui.fifoRdreq fifoEmpty
  let countRdreq := s.xaui.packetByteCountRdreq countEmpty
  { s with
    xaui := {
      genState := s.xaui.nextGenState countEmpty
      xauiOutputCount := if s.xaui.genState = .outputPacket then s.xaui.xauiOutputCount + 1 else 1
      fifoRdreqZ := rdreq
      fifoDout := if rdreq then s.fifo.headD default else s.xaui.fifoDout
      packetByteCountDout :=
        if countRdreq then s.counts.headD default else s.xaui.packetByteCountDout }
    fifo := if rdreq then s.fifo.tail else s.fifo
    counts := if countRdreq then s.counts.tail else s.counts }

/-- What the FIFOs guarantee: nothing is read that is not there, a count stays readable until it is
read, and the words of a frame can be read when the number of words has been. -/
structure Flags (s : Translator) (fifoEmpty countEmpty : Bool) : Prop where
  fifo : s.fifo = [] → fifoEmpty = true
  count : s.counts = [] → countEmpty = true
  stays : s.xaui.genState = .readPacketSize → s.counts ≠ [] → countEmpty = false
  words : s.xaui.genState = .outputPacket → s.fifo ≠ [] → fifoEmpty = false

/-- After a reset -/
def reset : Translator where
  gmii := ⟨false, 0, .idle, 0, iblockR, false, false⟩
  xaui := ⟨.genIdles, 1, false, default, default⟩
  fifo := []
  counts := []

end Translator

/-! ## What is to be sent -/

/-- The words for these frames: each has a start word before it and an idle word after it, and there
may be more idle words. -/
inductive Delivers : List (List (BitVec 8)) → List Xlgmii → Prop
  | start : Delivers [] []
  | idle {frames : List (List (BitVec 8))} {out : List Xlgmii} (h : Delivers frames out) :
    Delivers frames (out ++ [iblockR])
  | frame {frames : List (List (BitVec 8))} {out : List Xlgmii} (bytes : List (BitVec 8))
      (h : Delivers frames out) :
    Delivers (frames ++ [bytes]) (out ++ startWord :: frameWords bytes ++ [iblockR])

/-- Where the state machine is: the frames `read` are sent, `current` is the frame being sent, and
`words` are those of its words that are to be read. -/
inductive Sending (x : XauiTx) (out : List Xlgmii) (read : List (List (BitVec 8))) :
    List (List (BitVec 8)) → List Xlgmii → Prop
  | idles (state : x.genState = .genIdles) (rdreqZ : x.fifoRdreqZ = false)
      (sent : Delivers read (out ++ [iblockR])) :
    Sending x out read [] []
  | reading (state : x.genState = .readPacketSize) (rdreqZ : x.fifoRdreqZ = false)
    (sent : Delivers read (out ++ [iblockR])) : Sending x out read [] []
  | output (bytes : List (BitVec 8)) (k : Nat) (pre : List Xlgmii) (len : bytes.length < 2 ^ 16 - 8)
    (left : k < (frameWords bytes).length) (state : x.genState = .outputPacket)
    (count : x.xauiOutputCount = BitVec.ofNat 16 (k + 1))
    (dout : x.packetByteCountDout = frameCount bytes)
    (next : (startWord :: frameWords bytes)[k]? = some (x.nextXgmii true))
    (sent : Delivers read pre) (now : out = pre ++ (startWord :: frameWords bytes).take k) :
    Sending x out read [bytes] ((frameWords bytes).drop k)
  | flush (bytes : List (BitVec 8)) (pre : List Xlgmii) (state : x.genState = .genIdles)
    (rdreqZ : x.fifoRdreqZ = true)
    (next : (startWord :: frameWords bytes)[(frameWords bytes).length]? = some (x.nextXgmii false))
    (sent : Delivers read pre)
    (now : out = pre ++ (startWord :: frameWords bytes).take (frameWords bytes).length) :
    Sending x out read [bytes] []

/-- A run: what has been received, and what has been sent. -/
structure Trace where
  feed : Feed
  translator : Translator
  out : List Xlgmii

namespace Trace

def gmiiEdge (t : Trace) (i : GmiiIn) : Trace := ⟨t.feed.step i, t.translator.gmiiEdge i, t.out⟩

def xauiEdge (t : Trace) (fifoEmpty countEmpty : Bool) : Trace where
  feed := t.feed
  translator := t.translator.xauiEdge fifoEmpty countEmpty
  out := t.out ++ [t.translator.xaui.nextXgmii (t.translator.xaui.fifoRdreq fifoEmpty)]

/-- From now on nothing is received, and what is in the FIFOs can be read. -/
def drain (t : Trace) : Nat → Trace
  | 0 => t.gmiiEdge ⟨false, 0, false⟩
  | m + 1 =>
    (t.drain m).xauiEdge (t.drain m).translator.fifo.isEmpty (t.drain m).translator.counts.isEmpty

/-- The runs in which the frames and the FIFOs are as they should be, with the edges of the two
clocks in any order. -/
inductive Reached : Trace → Prop
  | reset : Reached ⟨⟨.gap 12, []⟩, .reset, []⟩
  | gmii {t : Trace} (i : GmiiIn) (h : Reached t) (allows : t.feed.Allows i) :
      Reached (t.gmiiEdge i)
  | xaui {t : Trace} (fifoEmpty countEmpty : Bool) (h : Reached t)
    (flags : t.translator.Flags fifoEmpty countEmpty) : Reached (t.xauiEdge fifoEmpty countEmpty)

end Trace

/-! ## An edge of `xaui_clk` -/

/-- The frames whose number of words has been written are sent, being sent or to be read.  `rest`
are words of a frame that is not complete. -/
structure Reads (s : Translator) (out : List Xlgmii) (frames : List (List (BitVec 8)))
    (rest : List Xlgmii) (read current unread : List (List (BitVec 8))) (words : List Xlgmii) :
    Prop where
  sending : Sending s.xaui out read current words
  fifo : s.fifo = words ++ (unread.flatMap frameWords ++ rest)
  counts : s.counts = unread.map frameCount
  short : ∀ bytes ∈ unread, bytes.length < 2 ^ 16 - 8
  waiting : s.xaui.genState = .readPacketSize → unread ≠ []
  frames : frames = read ++ (current ++ unread)

/-- `Reads`, whatever has been sent -/
def ReadsSome (s : Translator) (out : List Xlgmii) (frames : List (List (BitVec 8)))
    (rest : List Xlgmii) : Prop :=
  ∃ read current unread words, Reads s out frames rest read current unread words

namespace Reads

variable {s : Translator} {out : List Xlgmii} {frames : List (List (BitVec 8))} {rest : List Xlgmii}
  {read current unread : List (List (BitVec 8))} {words : List Xlgmii} {fifoEmpty countEmpty : Bool}

theorem frameCount_eq {bytes : List (BitVec 8)} :
    frameCount bytes = BitVec.ofNat 16 (frameWords bytes).length := by
  rw [frameCount, length_frameWords]

/-- While no frame is sent, a count that can be read is read next. -/
theorem idle_step (h : Reads s out frames rest read current unread [])
    (hflags : s.Flags fifoEmpty countEmpty) {sent : List (List (BitVec 8))}
    (state : s.xaui.genState = .genIdles) (hframes : frames = sent ++ unread)
    (hsent : Delivers sent (out ++ [s.xaui.nextXgmii false] ++ [iblockR])) :
    Reads (s.xauiEdge fifoEmpty countEmpty) (out ++ [s.xaui.nextXgmii (s.xaui.fifoRdreq fifoEmpty)])
      frames rest sent [] unread [] := by
  have hrdreq : s.xaui.fifoRdreq fifoEmpty = false := by rw [XauiTx.fifoRdreq, state]; rfl
  have hcount : s.xaui.packetByteCountRdreq countEmpty = false := by
    rw [XauiTx.packetByteCountRdreq, state]
    rfl
  have hnext : (s.xauiEdge fifoEmpty countEmpty).xaui.genState =
      if countEmpty then .genIdles else .readPacketSize := by
    show s.xaui.nextGenState countEmpty = _
    rw [XauiTx.nextGenState, state]
  rw [hrdreq]
  refine ⟨?_, ?_, ?_, h.short, ?_, hframes⟩
  · cases countEmpty with
    | true => exact .idles hnext hrdreq hsent
    | false => exact .reading hnext hrdreq hsent
  · show (if s.xaui.fifoRdreq fifoEmpty then _ else s.fifo) = _
    rw [hrdreq]
    exact h.fifo
  · show (if s.xaui.packetByteCountRdreq countEmpty then _ else s.counts) = _
    rw [hcount]
    exact h.counts
  · intro hreading hnil
    have hempty := hflags.count (by rw [h.counts, hnil]; rfl)
    rw [hnext, hempty] at hreading
    exact absurd hreading (by decide)

theorem reading_step (h : Reads s out frames rest read [] unread [])
    (hflags : s.Flags fifoEmpty countEmpty) (state : s.xaui.genState = .readPacketSize)
    (rdreqZ : s.xaui.fifoRdreqZ = false) (sent : Delivers read (out ++ [iblockR])) :
    ReadsSome (s.xauiEdge fifoEmpty countEmpty)
      (out ++ [s.xaui.nextXgmii (s.xaui.fifoRdreq fifoEmpty)]) frames rest := by
  have hrdreq : s.xaui.fifoRdreq fifoEmpty = false := by rw [XauiTx.fifoRdreq, state]; rfl
  obtain ⟨bytes, unread', hunread⟩ := List.exists_cons_of_ne_nil (h.waiting state)
  subst hunread
  have hcounts := h.counts
  rw [List.map_cons] at hcounts
  have hcount : s.xaui.packetByteCountRdreq countEmpty = true := by
    rw [XauiTx.packetByteCountRdreq, state,
      hflags.stays state (by rw [hcounts]; exact List.cons_ne_nil _ _)]
    rfl
  have hword : s.xaui.nextXgmii false = iblockR := by
    rw [XauiTx.nextXgmii, rdreqZ]
    rfl
  rw [hrdreq, hword]
  refine ⟨read, [bytes], unread', frameWords bytes, ?_, ?_, ?_, ?_, ?_, h.frames⟩
  · rw [← List.drop_zero (l := frameWords bytes)]
    refine .output bytes 0 (out ++ [iblockR]) (h.short bytes List.mem_cons_self)
      ?_ ?_ ?_ ?_ ?_ sent ?_
    · rw [length_frameWords]
      exact Nat.succ_pos _
    · show s.xaui.nextGenState countEmpty = _
      rw [XauiTx.nextGenState, state]
    · show (if s.xaui.genState = .outputPacket then _ else _ : BitVec 16) = _
      rw [state]
      rfl
    · show (if s.xaui.packetByteCountRdreq countEmpty then s.counts.headD default else _) = _
      rw [hcount, hcounts]
      rfl
    · rw [XauiTx.nextXgmii,
        show (s.xauiEdge fifoEmpty countEmpty).xaui.fifoRdreqZ = false from hrdreq]
      rfl
    · rw [List.take_zero, List.append_nil]
  · show (if s.xaui.fifoRdreq fifoEmpty then _ else s.fifo) = _
    rw [hrdreq, if_neg Bool.false_ne_true, h.fifo, List.nil_append, List.flatMap_cons,
      List.append_assoc]
  · show (if s.xaui.packetByteCountRdreq countEmpty then s.counts.tail else _) = _
    rw [hcount, hcounts]
    rfl
  · intro bs hbs
    exact h.short bs (List.mem_cons_of_mem _ hbs)
  · intro hreading
    have hnext : (s.xauiEdge fifoEmpty countEmpty).xaui.genState = .outputPacket := by
      show s.xaui.nextGenState countEmpty = _
      rw [XauiTx.nextGenState, state]
    rw [hnext] at hreading
    exact absurd hreading (by decide)

theorem output_step {bytes : List (BitVec 8)} {k : Nat} {pre : List Xlgmii}
    (h : Reads s out frames rest read [bytes] unread ((frameWords bytes).drop k))
    (hflags : s.Flags fifoEmpty countEmpty) (len : bytes.length < 2 ^ 16 - 8)
    (left : k < (frameWords bytes).length) (state : s.xaui.genState = .outputPacket)
    (count : s.xaui.xauiOutputCount = BitVec.ofNat 16 (k + 1))
    (dout : s.xaui.packetByteCountDout = frameCount bytes)
    (next : (startWord :: frameWords bytes)[k]? = some (s.xaui.nextXgmii true))
    (sent : Delivers read pre) (now : out = pre ++ (startWord :: frameWords bytes).take k) :
    ReadsSome (s.xauiEdge fifoEmpty countEmpty)
      (out ++ [s.xaui.nextXgmii (s.xaui.fifoRdreq fifoEmpty)]) frames rest := by
  have hfifo := h.fifo
  rw [List.drop_eq_getElem_cons left, List.cons_append] at hfifo
  have hrdreq : s.xaui.fifoRdreq fifoEmpty = true := by
    rw [XauiTx.fifoRdreq, state, hflags.words state (by rw [hfifo]; exact List.cons_ne_nil _ _)]
    rfl
  have hcount : s.xaui.packetByteCountRdreq countEmpty = false := by
    rw [XauiTx.packetByteCountRdreq, state]
    rfl
  have hnow : out ++ [s.xaui.nextXgmii true] =
      pre ++ (startWord :: frameWords bytes).take (k + 1) := by
    rw [List.take_add_one, next, now, List.append_assoc]
    rfl
  -- the word that is read now is the next but one on the XGMII
  have hnext : ∀ rdreq, (startWord :: frameWords bytes)[k + 1]?
      = some ((s.xauiEdge fifoEmpty countEmpty).xaui.nextXgmii rdreq) := by
    intro rdreq
    have hZ : (s.xauiEdge fifoEmpty countEmpty).xaui.fifoRdreqZ = true := hrdreq
    have hdout : (s.xauiEdge fifoEmpty countEmpty).xaui.fifoDout = (frameWords bytes)[k] := by
      show (if s.xaui.fifoRdreq fifoEmpty then s.fifo.headD default else _) = _
      rw [hrdreq, hfifo]
      rfl
    rw [XauiTx.nextXgmii, hZ, hdout, List.getElem?_cons_succ, List.getElem?_eq_getElem left,
      Bool.not_true, Bool.and_false]
    rfl
  have hstate : (s.xauiEdge fifoEmpty countEmpty).xaui.genState
      = if k + 1 = (frameWords bytes).length then .genIdles else .outputPacket := by
    show s.xaui.nextGenState countEmpty = _
    have hlen := length_frameWords bytes
    have heq : BitVec.ofNat 16 (k + 1) = BitVec.ofNat 16 (frameWords bytes).length ↔
        k + 1 = (frameWords bytes).length := by
      rw [← BitVec.toNat_inj, BitVec.toNat_ofNat, BitVec.toNat_ofNat, Nat.mod_eq_of_lt (by omega),
        Nat.mod_eq_of_lt (by omega)]
    rw [XauiTx.nextGenState, state, count, dout, frameCount_eq]
    simp only [heq]
  have hfifo' : (s.xauiEdge fifoEmpty countEmpty).fifo
      = (frameWords bytes).drop (k + 1) ++ (unread.flatMap frameWords ++ rest) := by
    show (if s.xaui.fifoRdreq fifoEmpty then s.fifo.tail else _) = _
    rw [hrdreq, hfifo]
    rfl
  have hcounts' : (s.xauiEdge fifoEmpty countEmpty).counts = unread.map frameCount := by
    show (if s.xaui.packetByteCountRdreq countEmpty then _ else s.counts) = _
    rw [hcount]
    exact h.counts
  have hwaiting : (s.xauiEdge fifoEmpty countEmpty).xaui.genState = .readPacketSize →
      unread ≠ [] := by
    rw [hstate]
    intro hreading
    split at hreading <;> cases hreading
  rw [hrdreq, hnow]
  by_cases hlast : k + 1 = (frameWords bytes).length
  · rw [if_pos hlast] at hstate
    rw [hlast, List.drop_length] at hfifo'
    rw [hlast] at hnext
    exact ⟨read, [bytes], unread, [],
      .flush bytes pre hstate hrdreq (hnext false) sent (by rw [hlast]), hfifo', hcounts', h.short,
      hwaiting, h.frames⟩
  · rw [if_neg hlast] at hstate
    have hadd : (s.xauiEdge fifoEmpty countEmpty).xaui.xauiOutputCount =
        BitVec.ofNat 16 (k + 1 + 1) := by
      show (if s.xaui.genState = .outputPacket then s.xaui.xauiOutputCount + 1
        else _ : BitVec 16) = _
      rw [if_pos state, count, BitVec.ofNat_add (k + 1) 1]
      rfl
    have hdout : (s.xauiEdge fifoEmpty countEmpty).xaui.packetByteCountDout = frameCount bytes := by
      show (if s.xaui.packetByteCountRdreq countEmpty then _ else s.xaui.packetByteCountDout) = _
      rw [hcount]
      exact dout
    exact ⟨read, [bytes], unread, _, .output bytes (k + 1) pre len (by omega) hstate hadd hdout
      (hnext true) sent rfl, hfifo', hcounts', h.short, hwaiting, h.frames⟩

/-- With an edge of `xaui_clk` one more word of the frames is on the XGMII, or an idle word between
them. -/
theorem xauiEdge (h : Reads s out frames rest read current unread words)
    (hflags : s.Flags fifoEmpty countEmpty) :
    ReadsSome (s.xauiEdge fifoEmpty countEmpty)
      (out ++ [s.xaui.nextXgmii (s.xaui.fifoRdreq fifoEmpty)]) frames rest := by
  cases h.sending with
  | idles state rdreqZ sent =>
    have hword : s.xaui.nextXgmii false = iblockR := by
      rw [XauiTx.nextXgmii, rdreqZ]
      rfl
    exact ⟨read, [], unread, [],
      h.idle_step hflags state h.frames (by rw [hword]; exact .idle sent)⟩
  | reading state rdreqZ sent => exact h.reading_step hflags state rdreqZ sent
  | output bytes k pre len left state count dout next sent now =>
    exact h.output_step hflags len left state count dout next sent now
  | flush bytes pre state rdreqZ next sent now =>
    refine ⟨read ++ [bytes], [], unread, [], h.idle_step hflags state ?_ ?_⟩
    · rw [h.frames, List.append_assoc]
    · have hall : out ++ [s.xaui.nextXgmii false] = pre ++ startWord :: frameWords bytes := by
        have htake :=
          List.take_add_one (l := startWord :: frameWords bytes) (i := (frameWords bytes).length)
        rw [next, List.take_of_length_le (Nat.le_of_eq (List.length_cons))] at htake
        rw [now, List.append_assoc]
        exact congrArg (pre ++ ·) htake.symm
      rw [hall]
      exact .frame bytes sent

/-- With an edge of `gmii_clk` words and a number of words may go into the FIFOs. -/
theorem gmiiEdge (h : Reads s out frames rest read current unread words) (i : GmiiIn)
    {done : List (List (BitVec 8))} {part : List Xlgmii}
    (hwords : rest ++ s.gmii.written = done.flatMap frameWords ++ part)
    (hcounts : s.gmii.countWritten = done.map frameCount)
    (hshort : ∀ bytes ∈ done, bytes.length < 2 ^ 16 - 8) :
    Reads (s.gmiiEdge i) out (frames ++ done) part read current (unread ++ done) words := by
  refine ⟨h.sending, ?_, ?_, ?_, ?_, ?_⟩
  · show s.fifo ++ s.gmii.written = _
    rw [h.fifo, List.append_assoc, List.append_assoc, hwords, List.flatMap_append,
      List.append_assoc]
  · show s.counts ++ s.gmii.countWritten = _
    rw [h.counts, hcounts, List.map_append]
  · intro bytes hbytes
    rcases List.mem_append.mp hbytes with hmem | hmem
    · exact h.short bytes hmem
    · exact hshort bytes hmem
  · intro hreading hnil
    exact h.waiting hreading (List.append_eq_nil_iff.mp hnil).1
  · rw [h.frames, List.append_assoc, List.append_assoc]

/-- What is on the XGMII can be continued to whole frames. -/
theorem toDelivers (h : Reads s out frames rest read current unread words) :
    ∃ sent more, sent <+: frames ∧ Delivers sent (out ++ more) := by
  have hprefix : read ++ current <+: frames := by
    rw [h.frames, ← List.append_assoc]
    exact List.prefix_append _ _
  have hread : read <+: frames := (List.prefix_append read current).trans hprefix
  cases h.sending with
  | idles state rdreqZ sent => exact ⟨read, [iblockR], hread, sent⟩
  | reading state rdreqZ sent => exact ⟨read, [iblockR], hread, sent⟩
  | output bytes k pre len left state count dout next sent now =>
    refine ⟨_, (startWord :: frameWords bytes).drop k ++ [iblockR], hprefix, ?_⟩
    rw [now, List.append_assoc, ← List.append_assoc (List.take _ _), List.take_append_drop,
      ← List.append_assoc]
    exact .frame bytes sent
  | flush bytes pre state rdreqZ next sent now =>
    refine ⟨_, (startWord :: frameWords bytes).drop (frameWords bytes).length ++ [iblockR],
      hprefix, ?_⟩
    rw [now, List.append_assoc, ← List.append_assoc (List.take _ _), List.take_append_drop,
      ← List.append_assoc]
    exact .frame bytes sent

end Reads

/-! ## Runs -/

namespace XauiTx

/-- How many edges there are at most before everything has been read. -/
def pending (x : XauiTx) (counts : List (BitVec 16)) : Nat :=
  (match x.genState with
    | .genIdles => if x.fifoRdreqZ then 2 else if counts = [] then 0 else 1
    | .readPacketSize => 0
    | .outputPacket => (x.packetByteCountDout - x.xauiOutputCount).toNat + 3)
    + (counts.map fun c => (c - 1).toNat + 4).sum

theorem pending_xauiEdge (s : Translator) (hne : s.xaui.pending s.counts ≠ 0) :
    (s.xauiEdge s.fifo.isEmpty s.counts.isEmpty).xaui.pending
      (s.xauiEdge s.fifo.isEmpty s.counts.isEmpty).counts < s.xaui.pending s.counts := by
  cases hstate : s.xaui.genState with
  | genIdles =>
    have hrdreq : s.xaui.fifoRdreq s.fifo.isEmpty = false := by rw [fifoRdreq, hstate]; rfl
    cases hcounts : s.counts with
    | nil =>
      rw [pending, hstate, hcounts] at hne
      simp [pending, Translator.xauiEdge, nextGenState, packetByteCountRdreq, hstate, hcounts,
        hrdreq] at hne ⊢
      simp [hne]
    | cons c counts =>
      simp [pending, Translator.xauiEdge, nextGenState, packetByteCountRdreq, hstate, hcounts]
      split <;> omega
  | readPacketSize =>
    cases hcounts : s.counts with
    | nil => simp [pending, hstate, hcounts] at hne
    | cons c counts =>
      simp [pending, Translator.xauiEdge, nextGenState, packetByteCountRdreq, hstate, hcounts]
  | outputPacket =>
    have hcounts : (s.xauiEdge s.fifo.isEmpty s.counts.isEmpty).counts = s.counts := by
      simp [Translator.xauiEdge, packetByteCountRdreq, hstate]
    rw [pending, pending, hcounts, hstate]
    apply Nat.add_lt_add_right
    by_cases hlast : s.xaui.xauiOutputCount = s.xaui.packetByteCountDout
    · have hnext : (s.xauiEdge s.fifo.isEmpty s.counts.isEmpty).xaui.genState = .genIdles := by
        simp [Translator.xauiEdge, nextGenState, hstate, hlast]
      simp only [hnext]
      split
      · omega
      · split <;> omega
    · have hnext : (s.xauiEdge s.fifo.isEmpty s.counts.isEmpty).xaui.genState = .outputPacket := by
        simp [Translator.xauiEdge, nextGenState, hstate, hlast]
      have hdout : (s.xauiEdge s.fifo.isEmpty s.counts.isEmpty).xaui.packetByteCountDout
          = s.xaui.packetByteCountDout := by
        simp [Translator.xauiEdge, packetByteCountRdreq, hstate]
      have hcount : (s.xauiEdge s.fifo.isEmpty s.counts.isEmpty).xaui.xauiOutputCount
          = s.xaui.xauiOutputCount + 1 := by
        simp [Translator.xauiEdge, hstate]
      simp only [hnext, hdout, hcount]
      have hlt := s.xaui.xauiOutputCount.isLt
      have hdoutLt := s.xaui.packetByteCountDout.isLt
      have hneq : s.xaui.xauiOutputCount.toNat ≠ s.xaui.packetByteCountDout.toNat :=
        fun heq => hlast (BitVec.eq_of_toNat_eq heq)
      rw [BitVec.toNat_sub, BitVec.toNat_sub, BitVec.toNat_add,
        show (1 : BitVec 16).toNat = 1 from rfl]
      omega

end XauiTx

namespace Trace

variable {t : Trace}

/-- The frames whose words are all written, those that are being written, and the one that is filled
up. -/
structure Inv (t : Trace) (frames done tail : List (List (BitVec 8))) (rest part : List Xlgmii) :
    Prop where
  packing : GmiiRx.Packing t.translator.gmii t.feed.pos part tail
  words : rest ++ t.translator.gmii.written = done.flatMap frameWords ++ part
  counts : t.translator.gmii.countWritten = done.map frameCount
  short : ∀ bytes ∈ done, bytes.length < 2 ^ 16 - 8
  reads : ReadsSome t.translator t.out frames rest
  frames : t.feed.frames = frames ++ (done ++ tail)

theorem Reached.inv (h : Reached t) :
    ∃ frames done tail rest part, t.Inv frames done tail rest part := by
  induction h with
  | reset =>
    refine ⟨[], [], [], [], [], .rest 12 rfl rfl, rfl, rfl, List.forall_mem_nil _,
      ⟨[], [], [], [], ?_⟩, rfl⟩
    exact ⟨.idles rfl rfl (.idle .start), rfl, rfl, List.forall_mem_nil _,
      (fun hreading => by cases hreading), rfl⟩
  | gmii i _ allows ih =>
    obtain ⟨frames, done, tail, rest, part, hinv⟩ := ih
    obtain ⟨done', ⟨part', tail', new, hpacking, hwords, hframes, htail⟩, hcounts, hshort⟩ :=
      hinv.packing.step allows
    obtain ⟨read, current, unread, words, hreads⟩ := hinv.reads
    refine ⟨frames ++ done, done', tail', part, part', hpacking, hwords, hcounts, hshort,
      ⟨read, current, _, words, hreads.gmiiEdge i hinv.words hinv.counts hinv.short⟩, ?_⟩
    show (Feed.step _ i).frames = _
    rw [hframes, hinv.frames, ← htail]
    simp only [List.append_assoc]
  | xaui fifoEmpty countEmpty _ flags ih =>
    obtain ⟨frames, done, tail, rest, part, hinv⟩ := ih
    obtain ⟨read, current, unread, words, hreads⟩ := hinv.reads
    exact ⟨frames, done, tail, rest, part, hinv.packing, hinv.words, hinv.counts, hinv.short,
      hreads.xauiEdge flags, hinv.frames⟩

/-- The flags when what is in the FIFOs can be read -/
theorem flags_isEmpty (s : Translator) : s.Flags s.fifo.isEmpty s.counts.isEmpty where
  fifo := List.isEmpty_iff.mpr
  count := List.isEmpty_iff.mpr
  stays _ hne := List.isEmpty_eq_false_iff.mpr hne
  words _ hne := List.isEmpty_eq_false_iff.mpr hne

theorem Reached.drain (h : Reached t) : ∀ m, Reached (t.drain m)
  | 0 => .gmii _ h fun hen => by cases hen
  | m + 1 => .xaui _ _ (h.drain m) (flags_isEmpty _)

@[simp]
theorem drain_feed : ∀ m, (t.drain m).feed = t.feed
  | 0 => rfl
  | m + 1 => drain_feed m

@[simp]
theorem drain_gmii :
    ∀ m, (t.drain m).translator.gmii =
      { t.translator.gmii with fifoWrEn := false, countWrEn := false }
  | 0 => rfl
  | m + 1 => drain_gmii m

/-- Everything is sent in the end. -/
theorem drain_pending (t : Trace) :
    ∃ m, (t.drain m).translator.xaui.pending (t.drain m).translator.counts = 0 := by
  obtain ⟨m, _, hm⟩ :=
    Lib.reaches_zero (fun m => (t.drain m).translator.xaui.pending (t.drain m).translator.counts)
    (fun m hne => ⟨m + 1, Nat.lt_succ_self m, XauiTx.pending_xauiEdge _ hne⟩) 0
  exact ⟨m, hm⟩

end Trace

/-- When nothing is left to read, all frames whose words are written have been sent. -/
theorem Reads.all_sent {s : Translator} {out : List Xlgmii} {frames : List (List (BitVec 8))}
    {rest : List Xlgmii} {read current unread : List (List (BitVec 8))} {words : List Xlgmii}
    (h : Reads s out frames rest read current unread words)
    (hpending : s.xaui.pending s.counts = 0) :
    s.xaui.genState = .genIdles ∧ s.xaui.fifoRdreqZ = false ∧
      Delivers frames (out ++ [iblockR]) := by
  have hcounts := h.counts
  have hwaiting := h.waiting
  have hframes := h.frames
  have hunread : unread = [] := by
    cases hunread : unread with
    | nil => rfl
    | cons bytes unread' =>
      rw [XauiTx.pending, hcounts, hunread, List.map_cons, List.map_cons, List.sum_cons] at hpending
      omega
  rw [XauiTx.pending] at hpending
  subst hunread
  cases h.sending with
  | idles state rdreqZ sent =>
    rw [List.append_nil, List.append_nil] at hframes
    exact ⟨state, rdreqZ, hframes ▸ sent⟩
  | reading state rdreqZ sent => exact absurd rfl (hwaiting state)
  | output bytes k pre len left state count dout next sent now =>
    simp [state] at hpending
  | flush bytes pre state rdreqZ next sent now =>
    simp [state, rdreqZ] at hpending

/-- **What is on the XGMII are the frames that were received, in order.**  It is always the
beginning of such words, and after a gap all frames are there when the FIFOs have been read. -/
theorem translator_delivers {t : Trace} (h : t.Reached) :
    (∃ sent more, sent <+: t.feed.frames ∧ Delivers sent (t.out ++ more)) ∧
      ∀ n, t.feed.pos = .gap n → 12 ≤ n → ∃ m, Delivers t.feed.frames (t.drain m).out := by
  constructor
  · obtain ⟨frames, done, tail, rest, part, hinv⟩ := h.inv
    obtain ⟨read, current, unread, words, hreads⟩ := hinv.reads
    obtain ⟨sent, more, hprefix, hsent⟩ := hreads.toDelivers
    exact ⟨sent, more, hprefix.trans (hinv.frames ▸ List.prefix_append _ _), hsent⟩
  · intro n hpos hn
    obtain ⟨m, hm⟩ := t.drain_pending
    obtain ⟨frames, done, tail, rest, part, hinv⟩ := (h.drain m).inv
    obtain ⟨read, current, unread, words, hreads⟩ := hinv.reads
    obtain ⟨hstate, hrdreqZ, hsent⟩ := hreads.all_sent hm
    have hdone : done = [] := by
      have hcounts := hinv.counts
      rw [Trace.drain_gmii] at hcounts
      exact List.map_eq_nil_iff.mp hcounts.symm
    have htail : tail = [] := by
      have hpacking := hinv.packing
      rw [Trace.drain_feed, hpos] at hpacking
      cases hpacking with
      | rest => rfl
      | tail bytes j room => omega
    have hframes := hinv.frames
    rw [Trace.drain_feed, hdone, htail, List.append_nil, List.append_nil] at hframes
    have hword : (t.drain m).translator.xaui.nextXgmii ((t.drain m).translator.xaui.fifoRdreq
        (t.drain m).translator.fifo.isEmpty) = iblockR := by
      rw [XauiTx.fifoRdreq, XauiTx.nextXgmii, hstate, hrdreqZ]
      rfl
    refine ⟨m + 1, ?_⟩
    show Delivers _ ((t.drain m).out ++ [_])
    rw [hframes, hword]
    exact hsent

theorem Trace.gmiiEdge_feed (t : Trace) (i : GmiiIn) : (t.gmiiEdge i).feed = t.feed.step i := rfl

/-- Bytes behind a preamble -/
def Trace.bytes (t : Trace) (bytes : List (BitVec 8)) : Trace :=
  bytes.foldl (fun t b => t.gmiiEdge ⟨true, b, true⟩) t

theorem Trace.Reached.bytes : ∀ (more : List (BitVec 8)) {t : Trace} {bytes : List (BitVec 8)},
    t.Reached → t.feed.pos = .data bytes → (bytes ++ more).length < 2 ^ 16 - 8 →
    (t.bytes more).Reached ∧ (t.bytes more).feed = ⟨.data (bytes ++ more), t.feed.frames⟩
  | [], t, bytes, h, hpos, _ => by
    rw [List.append_nil, ← hpos]
    exact ⟨h, rfl⟩
  | b :: more, t, bytes, h, hpos, hlen => by
    have happend : bytes ++ b :: more = bytes ++ [b] ++ more := by simp
    have hreached : (t.gmiiEdge ⟨true, b, true⟩).Reached := by
      refine .gmii _ h fun _ => ?_
      rw [hpos]
      show bytes.length + 1 < _
      rw [happend, List.length_append, List.length_append, List.length_singleton] at hlen
      omega
    have hfeed : (t.gmiiEdge ⟨true, b, true⟩).feed = ⟨.data (bytes ++ [b]), t.feed.frames⟩ := by
      rw [Trace.gmiiEdge_feed, Feed.step, hpos]
      rfl
    rw [happend] at hlen ⊢
    have ih := Reached.bytes more hreached (congrArg Feed.pos hfeed) hlen
    rwa [hfeed] at ih

/-- A frame, behind the shortest preamble -/
def Trace.frame (t : Trace) (bytes : List (BitVec 8)) : Trace :=
  ((t.gmiiEdge ⟨true, preambleSfd, true⟩).bytes bytes).gmiiEdge ⟨true, 0, false⟩

theorem Trace.Reached.frame {t : Trace} (h : t.Reached) {n : Nat} (hpos : t.feed.pos = .gap n)
    (hn : 12 ≤ n) {bytes : List (BitVec 8)} (hne : bytes ≠ []) (hlen : bytes.length < 2 ^ 16 - 8) :
    (t.frame bytes).Reached ∧ (t.frame bytes).feed = ⟨.gap 1, t.feed.frames ++ [bytes]⟩ := by
  have hbegun : (t.gmiiEdge ⟨true, preambleSfd, true⟩).Reached := by
    refine .gmii _ h fun _ => ?_
    rw [hpos]
    exact hn
  have hfeed : (t.gmiiEdge ⟨true, preambleSfd, true⟩).feed = ⟨.data [], t.feed.frames⟩ := by
    rw [Trace.gmiiEdge_feed, Feed.step, hpos]
    rfl
  obtain ⟨hreached, hdata⟩ := hbegun.bytes bytes (congrArg Feed.pos hfeed) hlen
  rw [hfeed] at hdata
  constructor
  · refine .gmii _ hreached fun _ => ?_
    rw [hdata]
    exact hne
  · rw [Trace.frame, Trace.gmiiEdge_feed, hdata]
    rfl

/-- `m` cycles of a gap. -/
def Trace.gap (t : Trace) : Nat → Trace
  | 0 => t
  | m + 1 => (t.gap m).gmiiEdge ⟨true, 0, false⟩

theorem Trace.Reached.gap {t : Trace} (h : t.Reached) {n : Nat} (hpos : t.feed.pos = .gap n) :
    ∀ m, (t.gap m).Reached ∧ (t.gap m).feed = ⟨.gap (n + m), t.feed.frames⟩
  | 0 => ⟨h, hpos ▸ rfl⟩
  | m + 1 => by
    obtain ⟨hreached, hgap⟩ := h.gap hpos m
    refine ⟨.gmii _ hreached ?_, ?_⟩
    · intro _
      rw [hgap]
      trivial
    · rw [Trace.gap, Trace.gmiiEdge_feed, hgap]
      rfl

/-- A frame of 20 bytes -/
def twentyBytes : List (BitVec 8) := List.replicate 20 0xAB

/-- A frame of 9 bytes -/
def nineBytes : List (BitVec 8) := List.replicate 9 0xCD

/-- Two frames with the shortest gap between them, and a gap -/
def twoFramesTrace : Trace :=
  (((Trace.frame ⟨⟨.gap 12, []⟩, .reset, []⟩ twentyBytes).gap 11).frame nineBytes).gap 11

theorem twoFramesTrace_reached :
    twoFramesTrace.Reached ∧ twoFramesTrace.feed = ⟨.gap 12, [twentyBytes, nineBytes]⟩ := by
  obtain ⟨h₁, hfeed₁⟩ :=
    Trace.Reached.reset.frame rfl (Nat.le_refl 12) (by decide : twentyBytes ≠ [])
    (by decide)
  obtain ⟨h₂, hfeed₂⟩ := h₁.gap (congrArg Feed.pos hfeed₁) 11
  obtain ⟨h₃, hfeed₃⟩ := h₂.frame (congrArg Feed.pos hfeed₂) (Nat.le_refl 12)
    (by decide : nineBytes ≠ []) (by decide)
  obtain ⟨h₄, hfeed₄⟩ := h₃.gap (congrArg Feed.pos hfeed₃) 11
  refine ⟨h₄, hfeed₄.trans ?_⟩
  rw [hfeed₃, hfeed₂, hfeed₁]
  rfl

theorem translator_delivers_twoFrames :
    ∃ m, Delivers [twentyBytes, nineBytes] (twoFramesTrace.drain m).out := by
  have h := (translator_delivers twoFramesTrace_reached.1).2 12
  rw [twoFramesTrace_reached.2] at h
  exact h rfl (Nat.le_refl 12)

end MlibDevel.FortyGbe
