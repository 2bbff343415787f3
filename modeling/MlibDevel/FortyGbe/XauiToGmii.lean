import MlibDevel.Lib.Chunks
import MlibDevel.FortyGbe.XauiOutput

/-!
# From XGMII words to GMII frames (`xaui_to_gmii_translator.vhd`)

All words but the idle ones go through a FIFO that gives them out byte by byte, first lane first.
Its bytes are put on the GMII while they are no control characters, and after a terminate character
it is not read for a while.

The FIFO is a queue that does not overflow.  Its empty flag is an input.
-/

namespace MlibDevel.FortyGbe.XauiToGmii

/-! ## Words into the FIFO -/

/-- The registers that are clocked with `xaui_clk`. -/
structure XauiRx where
  xauiFifoWrite : Bool
  xauiFifoDin : Xlgmii

/-- `X"D5"` behind seven times `X"55"`, which is stored in place of the start word. -/
def preambleWord : Xlgmii where
  c := fun _ => false
  d := fun k => if k = 7 then preambleSfd else 0x55

/-- `gen_xaui_fifo_din` -/
def XauiRx.edge (xgmii : Xlgmii) : XauiRx :=
  if (∀ k, xgmii.c k = true) ∧ ∀ k, xgmii.d k = rI then ⟨false, ⟨fun _ => false, fun _ => 0⟩⟩
  else if (∀ k, xgmii.c k = startWord.c k) ∧ ∀ k, xgmii.d k = startWord.d k
    then ⟨true, preambleWord⟩
  else ⟨true, xgmii⟩

/-- The bytes of a word, with their control bits, first lane first -/
def lanes (w : Xlgmii) : List (Bool × BitVec 8) := List.ofFn fun k => (w.c k, w.d k)

/-- What the next edge of `xaui_clk` puts into the FIFO -/
def XauiRx.written (x : XauiRx) : List (Bool × BitVec 8) :=
  if x.xauiFifoWrite then lanes x.xauiFifoDin else []

/-! ## Bytes out of the FIFO -/

/-- The inputs in a cycle of `gmii_clk`. -/
structure GmiiCycle where
  gmiiClkEn : Bool
  gmiiLinkUp : Bool
  xauiFifoEmpty : Bool

/-- The registers that are clocked with `gmii_clk`, with the output of the FIFO. -/
structure GmiiTx where
  xauiFifoRdreqZ : Bool
  xauiFifoDout : Bool × BitVec 8
  gmiiTxEn : Bool
  gmiiTxd : BitVec 8
  ifgCounterReset : Bool
  ifgCounter : BitVec 4

/-- A control character that is `C_TERMINATE_CHARACTER` -/
def isTerminate (x : Bool × BitVec 8) : Bool := x.1 && x.2 == rT

namespace GmiiTx

/-- `xaui_fifo_rdreq` -/
def xauiFifoRdreq (s : GmiiTx) (i : GmiiCycle) : Bool :=
  !i.xauiFifoEmpty && i.gmiiLinkUp && s.ifgCounter == 15 && !s.ifgCounterReset && i.gmiiClkEn

/-- A rising edge of `gmii_clk`.  `head` is what is first in the FIFO. -/
def edge (s : GmiiTx) (i : GmiiCycle) (head : Bool × BitVec 8) : GmiiTx where
  xauiFifoRdreqZ := s.xauiFifoRdreq i
  xauiFifoDout := if s.xauiFifoRdreq i then head else s.xauiFifoDout
  gmiiTxEn :=
    if s.xauiFifoRdreqZ then !s.xauiFifoDout.1 else if i.gmiiClkEn then false else s.gmiiTxEn
  gmiiTxd := s.xauiFifoDout.2
  ifgCounterReset :=
    if s.xauiFifoRdreqZ && isTerminate s.xauiFifoDout then true
    else if i.gmiiClkEn then false else s.ifgCounterReset
  ifgCounter :=
    if i.gmiiClkEn then
      if s.ifgCounterReset then 0 else if s.ifgCounter = 15 then s.ifgCounter else s.ifgCounter + 1
    else s.ifgCounter

/-- What is on the GMII -/
def sample (s : GmiiTx) : Option (BitVec 8) := if s.gmiiTxEn then some s.gmiiTxd else none

end GmiiTx

/-! ## Runs -/

/-- The words of frames: each has a start word before it, and there are idle words between them. -/
inductive Wire : List (List (BitVec 8)) → List Xlgmii → Prop
  | nil : Wire [] []
  | idle {frames : List (List (BitVec 8))} {words : List Xlgmii} (h : Wire frames words) :
    Wire frames (iblockR :: words)
  | frame {frames : List (List (BitVec 8))} {words : List Xlgmii} (bytes : List (BitVec 8))
      (h : Wire frames words) :
    Wire (bytes :: frames) (startWord :: frameWords bytes ++ words)

/-- The words that are still to come, the translator, and what has been taken from the GMII:
`inFrame` after a byte of a frame was read from the FIFO, `clkEnZ` after an enabled cycle. -/
structure Trace where
  input : List Xlgmii
  xaui : XauiRx
  fifo : List (Bool × BitVec 8)
  gmii : GmiiTx
  inFrame : Bool
  clkEnZ : Bool
  out : List (Option (BitVec 8))

namespace Trace

/-- Idle words follow on the last frame. -/
def xauiEdge (t : Trace) : Trace :=
  { t with
    input := t.input.tail
    xaui := .edge (t.input.headD iblockR)
    fifo := t.fifo ++ t.xaui.written }

/-- The GMII is sampled when it is enabled. -/
def gmiiEdge (t : Trace) (i : GmiiCycle) : Trace :=
  { t with
    fifo := if t.gmii.xauiFifoRdreq i then t.fifo.tail else t.fifo
    gmii := t.gmii.edge i (t.fifo.headD default)
    inFrame := if t.gmii.xauiFifoRdreq i then !(t.fifo.headD default).1 else t.inFrame
    clkEnZ := i.gmiiClkEn
    out := if i.gmiiClkEn then t.out ++ [t.gmii.sample] else t.out }

/-- After a reset -/
def reset (words : List Xlgmii) : Trace where
  input := words
  xaui := ⟨false, ⟨fun _ => false, fun _ => 0⟩⟩
  fifo := []
  gmii := ⟨false, (false, 0), false, 0, false, 15⟩
  inFrame := false
  clkEnZ := false
  out := []

/--
The link is up, nothing is read that is not there, the FIFO does not run empty inside a frame, and
the enable is on in every cycle at 1 Gb/s and never in two successive ones at the lower speeds
(`gmii_to_sgmii_clk_gen.vhd`).
-/
structure Allows (gigabit : Bool) (t : Trace) (i : GmiiCycle) : Prop where
  linkUp : i.gmiiLinkUp = true
  empty : t.fifo = [] → i.xauiFifoEmpty = true
  inFrame : t.inFrame = true → i.xauiFifoEmpty = false
  clkEn : if gigabit then i.gmiiClkEn = true else t.clkEnZ = true → i.gmiiClkEn = false

/-- What is read in the cycle after a terminate character is a control character as well. -/
def NoStray (t : Trace) (i : GmiiCycle) : Prop :=
  t.gmii.xauiFifoRdreqZ = true → isTerminate t.gmii.xauiFifoDout = true →
    t.gmii.xauiFifoRdreq i = true →
    (t.fifo.headD default).1 = true

/-- The runs with these frames in which every cycle of `gmii_clk` is as it should be, with the edges
of the two clocks in any order. -/
inductive Reached (gigabit : Bool) (ok : Trace → GmiiCycle → Prop)
    (frames : List (List (BitVec 8))) : Trace → Prop
  | reset {words : List Xlgmii} (h : Wire frames words) : Reached gigabit ok frames (.reset words)
  | xaui {t : Trace} (h : Reached gigabit ok frames t) : Reached gigabit ok frames t.xauiEdge
  | gmii {t : Trace} (i : GmiiCycle) (h : Reached gigabit ok frames t) (allows : t.Allows gigabit i)
    (hok : ok t i) : Reached gigabit ok frames (t.gmiiEdge i)

end Trace

/-- The bytes of a preamble -/
def preamble : List (BitVec 8) := [0x55, 0x55, 0x55, 0x55, 0x55, 0x55, 0x55, preambleSfd]

/-- Samples that are these frames, each a burst behind a preamble, with 12 samples at least between
them.  There are `n` behind the last. -/
inductive Bursts : List (List (BitVec 8)) → List (Option (BitVec 8)) → Nat → Prop
  | start : Bursts [] [] 12
  | low {frames : List (List (BitVec 8))} {out : List (Option (BitVec 8))} {n : Nat}
      (h : Bursts frames out n) :
    Bursts frames (out ++ [none]) (n + 1)
  | burst {frames : List (List (BitVec 8))} {out : List (Option (BitVec 8))} {n : Nat}
      (bytes : List (BitVec 8))
    (h : Bursts frames out n) (gap : 12 ≤ n) : Bursts (frames ++ [bytes])
    (out ++ (preamble ++ bytes).map some) 0

/-! ## What goes into the FIFO -/

/-- The bytes that are stored for a frame -/
def frameItems (bytes : List (BitVec 8)) : List (Bool × BitVec 8) :=
  preamble.map (fun b => (false, b)) ++ frameLanes bytes

theorem lanes_laneWord (items : List (Bool × BitVec 8)) {q : Nat} (hq : 8 * q + 8 ≤ items.length) :
    lanes (laneWord items q) = (items.drop (q * 8)).take 8 := by
  apply List.ext_getElem?
  intro i
  rw [lanes, List.getElem?_ofFn, List.getElem?_take, List.getElem?_drop]
  split
  · next hi =>
    rw [List.getElem?_eq_getElem (by omega)]
    congr 1
    show (items.getD (8 * q + i) default : Bool × BitVec 8) = _
    rw [List.getD_eq_getElem?_getD, Nat.mul_comm 8 q, List.getElem?_eq_getElem (by omega)]
    rfl
  · rfl

/-- The words hold the bytes they were made of. -/
theorem flatMap_laneWords (items : List (Bool × BitVec 8)) {m : Nat} (hm : items.length = 8 * m) :
    (laneWords items).flatMap lanes = items := by
  have hmap : (laneWords items).map lanes = (List.range m).map fun q =>
      (items.drop (q * 8)).take 8 := by
    rw [laneWords, hm, Nat.mul_div_cancel_left _ (by decide), List.map_map]
    apply List.map_congr_left
    intro q hq
    have hlt := List.mem_range.mp hq
    exact lanes_laneWord items (by omega)
  rw [List.flatMap_def, hmap, Lib.flatten_range_take_drop, List.take_of_length_le (by omega)]

theorem frameLanes_getD_data {bytes : List (BitVec 8)} {i : Nat} (hi : i < bytes.length) :
    ((frameLanes bytes).getD i default).1 = false := by
  rw [frameLanes, List.getD_eq_getElem?_getD, List.getElem?_append_left (by rwa [List.length_map]),
    List.getElem?_map, List.getElem?_eq_getElem hi]
  rfl

theorem frameLanes_getD_tail (bytes : List (BitVec 8)) {j : Nat} (hj : bytes.length % 8 + j < 8) :
    (frameLanes bytes).getD (bytes.length + j) default = (true, if j = 0 then rT else rI) := by
  have htake :=
    congrArg (fun l => l.getD (bytes.length + j) default) (GmiiRx.frameLanes_take bytes hj)
  have hlen := length_frameLanes bytes
  have hat : ((frameLanes bytes).take (bytes.length + j)).length = bytes.length + j := by
    rw [List.length_take]
    omega
  rw [List.getD_eq_getElem?_getD, List.getD_eq_getElem?_getD, List.getElem?_take, if_pos (by omega),
    List.getElem?_append_right (by omega), hat, Nat.sub_self] at htake
  rw [List.getD_eq_getElem?_getD, htake]
  rfl

/-- A word of a frame is stored as it is. -/
theorem edge_frameWord {bytes : List (BitVec 8)} {w : Xlgmii} (hw : w ∈ frameWords bytes) :
    XauiRx.edge w = ⟨true, w⟩ := by
  obtain ⟨q, hq, rfl⟩ := List.mem_map.mp hw
  rw [List.mem_range, length_frameLanes, Nat.mul_div_cancel_left _ (by decide)] at hq
  have hfirst : (laneWord (frameLanes bytes) q).c 0 = false ∨
      (laneWord (frameLanes bytes) q).d 0 = rT ∧ (laneWord (frameLanes bytes) q).c 1 = true := by
    rcases Nat.lt_or_ge (8 * q) bytes.length with hlt | hge
    · exact .inl (frameLanes_getD_data hlt)
    · have hzero := frameLanes_getD_tail bytes (j := 0) (by omega)
      have hone := frameLanes_getD_tail bytes (j := 1) (by omega)
      rw [show bytes.length = 8 * q by omega] at hzero hone
      exact .inr ⟨congrArg Prod.snd hzero, congrArg Prod.fst hone⟩
  rw [XauiRx.edge, if_neg, if_neg]
  · rintro ⟨hc, -⟩
    rcases hfirst with hzero | ⟨-, hone⟩
    · rw [hc 0] at hzero
      exact absurd hzero (by decide)
    · rw [hc 1] at hone
      exact absurd hone (by decide)
  · rintro ⟨hc, hd⟩
    rcases hfirst with hzero | ⟨hzero, -⟩
    · rw [hc 0] at hzero
      exact absurd hzero (by decide)
    · rw [hd 0] at hzero
      exact absurd hzero (by decide)

/-- What the words put into the FIFO -/
def stored (words : List Xlgmii) : List (Bool × BitVec 8) :=
  words.flatMap fun w => (XauiRx.edge w).written

theorem stored_frameWords (bytes : List (BitVec 8)) :
    stored (frameWords bytes) = frameLanes bytes := by
  have hwords : ∀ w ∈ frameWords bytes, (XauiRx.edge w).written = lanes w := by
    intro w hw
    rw [edge_frameWord hw]
    rfl
  rw [stored, List.flatMap_def, List.map_congr_left hwords, ← List.flatMap_def, frameWords,
    flatMap_laneWords _ (length_frameLanes bytes)]

theorem stored_append (words words' : List Xlgmii) :
    stored (words ++ words') = stored words ++ stored words' :=
  List.flatMap_append

/-- What is stored are the frames, one after the other. -/
theorem Wire.stored_eq {frames : List (List (BitVec 8))} {words : List Xlgmii}
    (h : Wire frames words) : stored words = frames.flatMap frameItems := by
  induction h with
  | nil => rfl
  | idle _ ih => exact ih
  | @frame frames words bytes _ ih =>
    rw [List.cons_append, stored, List.flatMap_cons, ← stored, stored_append, stored_frameWords, ih,
      List.flatMap_cons, frameItems, List.append_assoc]
    rfl

end MlibDevel.FortyGbe.XauiToGmii
