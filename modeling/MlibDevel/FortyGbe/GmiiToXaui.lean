import Mathlib.Data.Nat.Init
import MlibDevel.FortyGbe.Pkg

/-!
# From GMII frames to XGMII words (`gmii_to_xaui_translator.vhd`)

The bytes of a frame are packed into words, eight to a word, with a terminate character behind the
last one and idle characters up to the end of its word.  The words go through one FIFO to the other
clock, the number of words of each frame through another.

The FIFOs are queues that do not overflow.
-/

namespace MlibDevel.FortyGbe

/-! ## The registers -/

/-- `T_CONVERT_STATE` -/
inductive ConvertState
  | idle
  | waitForPreambleFinish
  | copyData
  | genTerminate
  | genPadding
  deriving DecidableEq, Repr

/-- The inputs in a cycle of `gmii_clk`. -/
structure GmiiIn where
  clkEn : Bool
  rxd : BitVec 8
  rxDv : Bool

/-- The registers that are clocked with `gmii_clk`. -/
structure GmiiRx where
  rxDvZ : Bool
  rxdZ : BitVec 8
  convertState : ConvertState
  byteCount : BitVec 16
  fifoDin : Xlgmii
  fifoWrEn : Bool
  countWrEn : Bool

/-- `C_PREAMBLE_SFD` -/
def preambleSfd : BitVec 8 := 0xD5

namespace GmiiRx

/-- `byte_count(2 downto 0)` -/
def lane (s : GmiiRx) : Nat := s.byteCount.toNat % 8

/-- The states in which a byte goes into the word. -/
def writes (s : GmiiRx) : Bool :=
  s.convertState == .copyData || s.convertState == .genTerminate || s.convertState == .genPadding

/-- `next_gbe_byte` -/
def nextGbeByte (s : GmiiRx) : BitVec 8 :=
  match s.convertState with
  | .genTerminate => rT
  | .genPadding => rI
  | _ => s.rxdZ

/-- `next_gbe_control` -/
def nextGbeControl (s : GmiiRx) : Bool :=
  s.convertState == .genTerminate || s.convertState == .genPadding

/-- `gen_current_convert_state` -/
def nextConvertState (s : GmiiRx) (i : GmiiIn) : ConvertState :=
  match s.convertState with
  | .idle => if i.rxDv && !s.rxDvZ then .waitForPreambleFinish else .idle
  | .waitForPreambleFinish =>
    if i.rxDv && s.rxdZ == preambleSfd then .copyData else .waitForPreambleFinish
  | .copyData => if i.rxDv then .copyData else .genTerminate
  | .genTerminate => if s.lane = 7 then .idle else .genPadding
  | .genPadding => if s.lane = 7 then .idle else .genPadding

/-- A rising edge of `gmii_clk`. -/
def edge (s : GmiiRx) (i : GmiiIn) : GmiiRx :=
  if i.clkEn then {
    rxDvZ := i.rxDv
    rxdZ := i.rxd
    convertState := s.nextConvertState i
    byteCount :=
      if s.convertState = .idle then 0 else if s.writes then s.byteCount + 1 else s.byteCount
    fifoDin := {
      c := fun k => if s.writes ∧ s.lane = k then s.nextGbeControl else s.fifoDin.c k
      d := fun k => if s.writes ∧ s.lane = k then s.nextGbeByte else s.fifoDin.d k }
    fifoWrEn := s.writes && s.lane == 7
    countWrEn := s.nextGbeControl && s.lane == 7 }
  else { s with fifoWrEn := false, countWrEn := false }

/-- The word that goes into the FIFO with the next edge. -/
def written (s : GmiiRx) : List Xlgmii := if s.fifoWrEn then [s.fifoDin] else []

/-- `packet_byte_count_din`, which goes into the FIFO with the next edge -/
def countWritten (s : GmiiRx) : List (BitVec 16) := if s.countWrEn then [s.byteCount >>> 3] else []

end GmiiRx

/-! ## The words of a frame -/

/-- The word `q` of a stream of bytes, with a control bit each. -/
def laneWord (lanes : List (Bool × BitVec 8)) (q : Nat) : Xlgmii where
  c := fun k => (lanes.getD (8 * q + k) default).1
  d := fun k => (lanes.getD (8 * q + k) default).2

/-- The words that are complete. -/
def laneWords (lanes : List (Bool × BitVec 8)) : List Xlgmii :=
  (List.range (lanes.length / 8)).map (laneWord lanes)

/-- The bytes of a frame, the terminate character, and idle characters up to the end of the word. -/
def frameLanes (bytes : List (BitVec 8)) : List (Bool × BitVec 8) :=
  bytes.map (fun b => (false, b)) ++ (true, rT) :: List.replicate (7 - bytes.length % 8) (true, rI)

/-- The words of a frame. -/
def frameWords (bytes : List (BitVec 8)) : List Xlgmii := laneWords (frameLanes bytes)

/-- Their number -/
def frameCount (bytes : List (BitVec 8)) : BitVec 16 := BitVec.ofNat 16 (bytes.length / 8 + 1)

theorem length_frameLanes (bytes : List (BitVec 8)) :
    (frameLanes bytes).length = 8 * (bytes.length / 8 + 1) := by
  rw [frameLanes, List.length_append, List.length_map, List.length_cons, List.length_replicate]
  omega

theorem length_laneWords (lanes : List (Bool × BitVec 8)) :
    (laneWords lanes).length = lanes.length / 8 := by
  rw [laneWords, List.length_map, List.length_range]

theorem length_frameWords (bytes : List (BitVec 8)) :
    (frameWords bytes).length = bytes.length / 8 + 1 := by
  rw [frameWords, length_laneWords, length_frameLanes, Nat.mul_div_cancel_left _ (by decide)]

/-- A complete word no longer changes. -/
theorem laneWord_append (lanes : List (Bool × BitVec 8)) (x : Bool × BitVec 8) {q : Nat}
    (hq : 8 * q + 8 ≤ lanes.length) : laneWord (lanes ++ [x]) q = laneWord lanes q := by
  have hget : ∀ k : Fin 8, (lanes ++ [x]).getD (8 * q + k) default =
      lanes.getD (8 * q + k) default := by
    intro k
    have hk := k.isLt
    rw [List.getD_eq_getElem?_getD, List.getD_eq_getElem?_getD,
      List.getElem?_append_left (by omega)]
  rw [laneWord, laneWord]
  simp only [hget]

/-- A byte in the last lane completes a word. -/
theorem laneWords_append (lanes : List (Bool × BitVec 8)) (x : Bool × BitVec 8) :
    laneWords (lanes ++ [x])
      = laneWords lanes ++ if lanes.length % 8 = 7 then [laneWord (lanes ++ [x]) (lanes.length / 8)]
        else [] := by
  have hsame : (List.range (lanes.length / 8)).map (laneWord (lanes ++ [x])) = laneWords lanes := by
    apply List.map_congr_left
    intro q hq
    have hlt := List.mem_range.mp hq
    exact laneWord_append lanes x (by omega)
  rw [laneWords, List.length_append, List.length_singleton]
  by_cases hlast : lanes.length % 8 = 7
  · rw [if_pos hlast, show (lanes.length + 1) / 8 = lanes.length / 8 + 1 by omega, List.range_succ,
      List.map_append, hsame, List.map_singleton]
  · rw [if_neg hlast,
      show (lanes.length + 1) / 8 = lanes.length / 8 by omega, hsame, List.append_nil]

/-! ## Packing -/

namespace GmiiRx

variable {s : GmiiRx} {lanes : List (Bool × BitVec 8)} {i : GmiiIn}

/-- What has been put into words so far are `lanes`, the last of them in the word that is not
complete. -/
structure Emitted (s : GmiiRx) (lanes : List (Bool × BitVec 8)) : Prop where
  count : s.byteCount.toNat = lanes.length
  lane : ∀ k : Fin 8, k < lanes.length % 8 →
    (s.fifoDin.c k, s.fifoDin.d k) = lanes.getD (8 * (lanes.length / 8) + k) default

theorem not_idle (hwrites : s.writes = true) : s.convertState ≠ .idle := by
  intro hidle
  rw [writes, hidle] at hwrites
  exact absurd hwrites (by decide)

/-- The byte joins those that are in the word already. -/
theorem Emitted.lane_edge (h : s.Emitted lanes) (hen : i.clkEn = true) (hwrites : s.writes = true)
    {k : Fin 8} (hk : k ≤ lanes.length % 8) : ((s.edge i).fifoDin.c k, (s.edge i).fifoDin.d k)
      = (lanes ++ [(s.nextGbeControl, s.nextGbeByte)]).getD
        (8 * (lanes.length / 8) + k) default := by
  have hlane : s.lane = lanes.length % 8 := congrArg (· % 8) h.count
  rw [GmiiRx.edge, if_pos hen]
  show (if s.writes ∧ s.lane = k then _ else _, if s.writes ∧ s.lane = k then _ else _) = _
  rcases Nat.lt_or_eq_of_le hk with hlt | heq
  · have hne : ¬(s.writes = true ∧ s.lane = k) := by
      intro hthis
      omega
    rw [if_neg hne, if_neg hne, h.lane k hlt, List.getD_eq_getElem?_getD,
      List.getD_eq_getElem?_getD, List.getElem?_append_left (by omega)]
  · have hthis : s.writes = true ∧ s.lane = k := ⟨hwrites, by omega⟩
    rw [if_pos hthis, if_pos hthis, List.getD_eq_getElem?_getD,
      show 8 * (lanes.length / 8) + k = lanes.length by omega, List.getElem?_concat_length]
    rfl

/-- A byte is put into the word, and a complete word is written. -/
theorem Emitted.edge (h : s.Emitted lanes) (hen : i.clkEn = true) (hwrites : s.writes = true)
    (hroom : lanes.length + 1 < 2 ^ 16) :
    (s.edge i).Emitted (lanes ++ [(s.nextGbeControl, s.nextGbeByte)]) ∧
      laneWords lanes ++ (s.edge i).written
        = laneWords (lanes ++ [(s.nextGbeControl, s.nextGbeByte)]) := by
  have hlane : s.lane = lanes.length % 8 := congrArg (· % 8) h.count
  have hwr : (s.edge i).fifoWrEn = (s.lane == 7) := by
    rw [GmiiRx.edge, if_pos hen]
    show (s.writes && _) = _
    rw [hwrites, Bool.true_and]
  refine ⟨⟨?_, ?_⟩, ?_⟩
  · rw [GmiiRx.edge, if_pos hen]
    show (if s.convertState = .idle then _ else if s.writes then _ else _ : BitVec 16).toNat = _
    rw [if_neg (not_idle hwrites), if_pos hwrites, BitVec.toNat_add, h.count, List.length_append]
    exact Nat.mod_eq_of_lt hroom
  · intro k hk
    rw [List.length_append, List.length_singleton] at hk ⊢
    rw [show (lanes.length + 1) / 8 = lanes.length / 8 by omega]
    exact h.lane_edge hen hwrites (by omega)
  · rw [laneWords_append, written, hwr, hlane]
    by_cases hlast : lanes.length % 8 = 7
    · have hword : (s.edge i).fifoDin
          = laneWord (lanes ++ [(s.nextGbeControl, s.nextGbeByte)]) (lanes.length / 8) := by
        have hget := fun k : Fin 8 => h.lane_edge (k := k) hen hwrites (by omega)
        rw [laneWord]
        simp only [← hget]
      rw [if_pos hlast, hlast, hword]
      rfl
    · rw [if_neg hlast, beq_eq_false_iff_ne.mpr hlast]
      rfl

end GmiiRx

/-! ## Frames on the GMII -/

/-- What is being received: nothing, for `n` enabled cycles, a preamble, or the bytes behind it. -/
inductive FeedPos
  | gap (n : Nat)
  | preamble
  | data (bytes : List (BitVec 8))

/-- What has been received. -/
structure Feed where
  pos : FeedPos
  frames : List (List (BitVec 8))

namespace Feed

/-- A cycle.  The preamble ends with the start delimiter, the frame with `gmii_rx_dv`. -/
def step (f : Feed) (i : GmiiIn) : Feed :=
  if i.clkEn then
    match f.pos, i.rxDv with
    | .gap n, false => { f with pos := .gap (n + 1) }
    | .data bytes, true => { f with pos := .data (bytes ++ [i.rxd]) }
    | .data bytes, false => ⟨.gap 1, f.frames ++ [bytes]⟩
    | _, _ => { f with pos := if i.rxd = preambleSfd then .data [] else .preamble }
  else f

/-- Frames have a byte behind the preamble at least and are not too long, and there are 12 enabled
cycles between them. -/
def Allows (f : Feed) (i : GmiiIn) : Prop :=
  i.clkEn = true →
    match f.pos, i.rxDv with
    | .gap _, false => True
    | .gap n, true => 12 ≤ n
    | .preamble, dv => dv = true
    | .data bytes, true => bytes.length + 1 < 2 ^ 16 - 8
    | .data bytes, false => bytes ≠ []

end Feed

namespace GmiiRx

variable {s : GmiiRx} {i : GmiiIn} {pos : FeedPos} {part : List Xlgmii}
  {tail : List (List (BitVec 8))}

/-- Where the state machine is in a frame: `part` are the words written of a frame that is not
complete, `tail` is the frame if it is only filled up. -/
inductive Packing (s : GmiiRx) : FeedPos → List Xlgmii → List (List (BitVec 8)) → Prop
  | rest (n : Nat) (state : s.convertState = .idle) (dv : s.rxDvZ = false) :
      Packing s (.gap n) [] []
  | preamble (state : s.convertState = .waitForPreambleFinish) (byte : s.rxdZ ≠ preambleSfd)
    (count : s.byteCount = 0) : Packing s .preamble [] []
  | delimiter (state : s.convertState = .waitForPreambleFinish) (byte : s.rxdZ = preambleSfd)
    (count : s.byteCount = 0) : Packing s (.data []) [] []
  | copy (bytes : List (BitVec 8)) (b : BitVec 8) (len : (bytes ++ [b]).length < 2 ^ 16 - 8)
    (state : s.convertState = .copyData) (byte : s.rxdZ = b)
    (emitted : s.Emitted (bytes.map fun b => (false, b))) :
    Packing s (.data (bytes ++ [b])) (laneWords (bytes.map fun b => (false, b))) []
  | tail (bytes : List (BitVec 8)) (j : Nat) (room : bytes.length % 8 + j < 8)
    (len : bytes.length < 2 ^ 16 - 8) (dv : s.rxDvZ = false)
    (state : s.convertState = if j = 0 then .genTerminate else .genPadding)
    (emitted : s.Emitted ((frameLanes bytes).take (bytes.length + j))) :
    Packing s (.gap (j + 1)) (laneWords ((frameLanes bytes).take (bytes.length + j))) [bytes]

theorem edge_disabled (hen : i.clkEn = false) :
    s.edge i = { s with fifoWrEn := false, countWrEn := false } := by
  rw [edge, hen]
  rfl

/-- Nothing happens in a cycle that is not enabled. -/
theorem Packing.disabled (h : Packing s pos part tail) (hen : i.clkEn = false) :
    Packing (s.edge i) pos part tail ∧ (s.edge i).written = [] ∧ (s.edge i).countWritten = [] := by
  rw [edge_disabled hen]
  refine ⟨?_, rfl, rfl⟩
  cases h with
  | rest n state dv => exact .rest n state dv
  | preamble state byte count => exact .preamble state byte count
  | delimiter state byte count => exact .delimiter state byte count
  | copy bytes b len state byte emitted =>
    exact .copy bytes b len state byte ⟨emitted.count, emitted.lane⟩
  | tail bytes j room len dv state emitted =>
    exact .tail bytes j room len dv state ⟨emitted.count, emitted.lane⟩

/-- Outside of the words nothing is written. -/
theorem written_of_not (hen : i.clkEn = true) (h : s.writes = false) :
    (s.edge i).written = [] ∧ (s.edge i).countWritten = [] := by
  have hcontrol : s.nextGbeControl = false := by
    rw [writes, Bool.or_assoc, Bool.or_eq_false_iff] at h
    exact h.2
  rw [edge, if_pos hen]
  constructor
  · show (if (s.writes && _) = true then _ else _) = _
    rw [h]
    rfl
  · show (if (s.nextGbeControl && _) = true then _ else _) = _
    rw [hcontrol]
    rfl

/-- The byte `j` behind the data. -/
theorem frameLanes_take (bytes : List (BitVec 8)) {j : Nat} (hj : bytes.length % 8 + j < 8) :
    (frameLanes bytes).take (bytes.length + j + 1)
      = (frameLanes bytes).take (bytes.length + j) ++ [(true, if j = 0 then rT else rI)] := by
  have hlen := length_frameLanes bytes
  rw [List.take_succ_eq_append_getElem (by omega)]
  congr 2
  have hget : (frameLanes bytes)[bytes.length + j]? = some (true, if j = 0 then rT else rI) := by
    rw [frameLanes, List.getElem?_append_right (by rw [List.length_map]; omega), List.length_map,
      Nat.add_sub_cancel_left]
    cases j with
    | zero => rfl
    | succ j => rw [List.getElem?_cons_succ, List.getElem?_replicate, if_pos (by omega)]; rfl
  rw [List.getElem?_eq_getElem (by omega)] at hget
  exact Option.some.inj hget

theorem frameLanes_data (bytes : List (BitVec 8)) :
    (frameLanes bytes).take (bytes.length + 0) = bytes.map fun b => (false, b) := by
  rw [frameLanes, Nat.add_zero, List.take_left' (List.length_map _)]

/-! ## A cycle -/

@[simp]
theorem edge_convertState (hen : i.clkEn = true) :
    (s.edge i).convertState = s.nextConvertState i := by
  simp [edge, hen]

@[simp]
theorem edge_rxDvZ (hen : i.clkEn = true) : (s.edge i).rxDvZ = i.rxDv := by
  simp [edge, hen]

@[simp]
theorem edge_rxdZ (hen : i.clkEn = true) : (s.edge i).rxdZ = i.rxd := by
  simp [edge, hen]

/-- No count is written while bytes are copied. -/
theorem countWritten_of_not (hen : i.clkEn = true) (h : s.nextGbeControl = false) :
    (s.edge i).countWritten = [] := by
  simp [countWritten, edge, hen, h]

/-- A cycle: with it the frames `done` are complete, and `new` have ended. -/
structure Advances (s' : GmiiRx) (part : List Xlgmii) (tail : List (List (BitVec 8))) (f f' : Feed)
    (done : List (List (BitVec 8))) : Prop where
  packing : ∃ part' tail' new, Packing s' f'.pos part' tail' ∧ part ++ s'.written =
    done.flatMap frameWords ++ part' ∧
    f'.frames = f.frames ++ new ∧ tail ++ new = done ++ tail'
  counts : s'.countWritten = done.map frameCount
  short : ∀ bytes ∈ done, bytes.length < 2 ^ 16 - 8

variable {f : Feed} {bytes : List (BitVec 8)}

theorem rest_step {n : Nat} (hen : i.clkEn = true) (state : s.convertState = .idle)
    (dv : s.rxDvZ = false) (hpos : f.pos = .gap n) : Advances (s.edge i) [] [] f (f.step i) [] := by
  obtain ⟨hwritten, hcount⟩ := written_of_not hen (by rw [writes, state]; rfl : s.writes = false)
  refine ⟨?_, hcount, List.forall_mem_nil _⟩
  have hstate : (s.edge i).convertState = if i.rxDv then .waitForPreambleFinish else .idle := by
    rw [edge_convertState hen, nextConvertState, state, dv, Bool.not_false, Bool.and_true]
  have hcleared : (s.edge i).byteCount = 0 := by simp [edge, hen, state]
  cases hdv : i.rxDv with
  | false =>
    have hrest : f.step i = { f with pos := .gap (n + 1) } := by simp [Feed.step, hen, hpos, hdv]
    refine ⟨[], [], [], ?_, by rw [hwritten]; rfl, by rw [hrest, List.append_nil], rfl⟩
    rw [hrest]
    exact .rest _ (by rw [hstate, hdv]; rfl) (by rw [edge_rxDvZ hen, hdv])
  | true =>
    rw [hdv, if_pos rfl] at hstate
    have hstart : f.step i =
        { f with pos := if i.rxd = preambleSfd then .data [] else .preamble } := by
      simp [Feed.step, hen, hpos, hdv]
    refine ⟨[], [], [], ?_, by rw [hwritten]; rfl, by rw [hstart, List.append_nil], rfl⟩
    rw [hstart]
    show Packing _ (if _ then _ else _) _ _
    split
    · next hsfd => exact .delimiter hstate (by rw [edge_rxdZ hen, hsfd]) hcleared
    · next hsfd => exact .preamble hstate (by rw [edge_rxdZ hen]; exact hsfd) hcleared

theorem preamble_step (hen : i.clkEn = true) (state : s.convertState = .waitForPreambleFinish)
    (byte : s.rxdZ ≠ preambleSfd) (count : s.byteCount = 0) (hpos : f.pos = .preamble)
    (hallow : f.Allows i) : Advances (s.edge i) [] [] f (f.step i) [] := by
  have hdv : i.rxDv = true := by
    have hthis := hallow hen
    rwa [hpos] at hthis
  obtain ⟨hwritten, hcount⟩ := written_of_not hen (by rw [writes, state]; rfl : s.writes = false)
  have hstate : (s.edge i).convertState = .waitForPreambleFinish := by
    simp [edge_convertState hen, nextConvertState, state, byte]
  have hkept : (s.edge i).byteCount = 0 := by simp [edge, hen, state, writes, count]
  have hstep : f.step i =
      { f with pos := if i.rxd = preambleSfd then .data [] else .preamble } := by
    simp [Feed.step, hen, hpos]
  refine ⟨⟨[], [], [], ?_, by rw [hwritten]; rfl, by rw [hstep, List.append_nil], rfl⟩, hcount,
    List.forall_mem_nil _⟩
  rw [hstep]
  show Packing _ (if _ then _ else _) _ _
  split
  · next hsfd => exact .delimiter hstate (by rw [edge_rxdZ hen, hsfd]) hkept
  · next hsfd => exact .preamble hstate (by rw [edge_rxdZ hen]; exact hsfd) hkept

theorem delimiter_step (hen : i.clkEn = true) (state : s.convertState = .waitForPreambleFinish)
    (byte : s.rxdZ = preambleSfd) (count : s.byteCount = 0) (hpos : f.pos = .data [])
    (hallow : f.Allows i) : Advances (s.edge i) [] [] f (f.step i) [] := by
  have hthis := hallow hen
  obtain ⟨hwritten, hcount⟩ := written_of_not hen (by rw [writes, state]; rfl : s.writes = false)
  rw [hpos] at hthis
  cases hdv : i.rxDv with
  | false =>
    rw [hdv] at hthis
    exact absurd rfl hthis
  | true =>
    have hstate : (s.edge i).convertState = .copyData := by
      simp [edge_convertState hen, nextConvertState, state, byte, hdv]
    have hkept : (s.edge i).byteCount = 0 := by simp [edge, hen, state, writes, count]
    have hstep : f.step i = { f with pos := .data [i.rxd] } := by simp [Feed.step, hen, hpos, hdv]
    refine ⟨⟨[], [], [], ?_, by rw [hwritten]; rfl, by rw [hstep, List.append_nil], rfl⟩, hcount,
      List.forall_mem_nil _⟩
    rw [hstep]
    refine .copy [] i.rxd (Nat.lt_of_lt_of_le Nat.one_lt_two (by decide)) hstate (edge_rxdZ hen)
      ⟨by rw [hkept]; rfl, ?_⟩
    intro k hk
    exact absurd hk (Nat.not_lt_zero _)

theorem copy_step {b : BitVec 8} (hen : i.clkEn = true) (len : (bytes ++ [b]).length < 2 ^ 16 - 8)
    (state : s.convertState = .copyData) (byte : s.rxdZ = b)
    (emitted : s.Emitted (bytes.map fun b => (false, b))) (hpos : f.pos = .data (bytes ++ [b]))
    (hallow : f.Allows i) :
    ∃ done, Advances (s.edge i) (laneWords (bytes.map fun b => (false, b))) [] f
      (f.step i) done := by
  have hthis := hallow hen
  have hcontrol : s.nextGbeControl = false := by rw [nextGbeControl, state]; rfl
  have hbyte : s.nextGbeByte = b := by rw [nextGbeByte, state, byte]
  obtain ⟨hemitted, hwords⟩ := emitted.edge hen (by rw [writes, state]; rfl)
    (by
      rw [List.length_append] at len
      rw [List.length_map]
      exact Nat.lt_of_lt_of_le len (Nat.sub_le _ _))
  have hlanes : bytes.map (fun b => (false, b)) ++ [(s.nextGbeControl, s.nextGbeByte)]
      = (bytes ++ [b]).map fun b => (false, b) := by
    rw [hcontrol, hbyte, List.map_append, List.map_singleton]
  rw [hlanes] at hemitted hwords
  rw [hpos] at hthis
  refine ⟨[], ⟨?_, countWritten_of_not hen hcontrol, List.forall_mem_nil _⟩⟩
  cases hdv : i.rxDv with
  | false =>
    have hstate : (s.edge i).convertState = .genTerminate := by
      simp [edge_convertState hen, nextConvertState, state, hdv]
    have hstep : f.step i = ⟨.gap 1, f.frames ++ [bytes ++ [b]]⟩ := by
      simp [Feed.step, hen, hpos, hdv]
    have htail := frameLanes_data (bytes ++ [b])
    refine ⟨_, [bytes ++ [b]], [bytes ++ [b]], ?_, hwords, by rw [hstep], rfl⟩
    rw [hstep, ← htail]
    exact .tail _ 0 (by omega) len (by rw [edge_rxDvZ hen, hdv]) hstate
      (by rw [htail]; exact hemitted)
  | true =>
    rw [hdv] at hthis
    have hstate : (s.edge i).convertState = .copyData := by
      simp [edge_convertState hen, nextConvertState, state, hdv]
    have hstep : f.step i = { f with pos := .data (bytes ++ [b] ++ [i.rxd]) } := by
      simp [Feed.step, hen, hpos, hdv]
    refine ⟨_, [], [], ?_, hwords, by rw [hstep, List.append_nil], rfl⟩
    rw [hstep]
    exact .copy _ i.rxd (by rw [List.length_append]; exact hthis) hstate (edge_rxdZ hen) hemitted

/-- With the last lane the frame is complete, and the number of its words is written. -/
theorem countWritten_last (hen : i.clkEn = true) (hcontrol : s.nextGbeControl = true)
    (hlast : bytes.length % 8 + j = 7) (hlane : s.lane = 7)
    (hcount : (s.edge i).byteCount.toNat = bytes.length + j + 1) :
    (s.edge i).countWritten = [frameCount bytes] := by
  have hwr : (s.edge i).countWrEn = true := by simp [edge, hen, hcontrol, hlane]
  have hshift : (s.edge i).byteCount >>> 3 = frameCount bytes := by
    apply BitVec.eq_of_toNat_eq
    rw [BitVec.toNat_ushiftRight, hcount, Nat.shiftRight_eq_div_pow, frameCount, BitVec.toNat_ofNat]
    have hlt := (s.edge i).byteCount.isLt
    rw [hcount] at hlt
    omega
  rw [countWritten, if_pos hwr, hshift]

theorem tail_step {j : Nat} (hen : i.clkEn = true) (room : bytes.length % 8 + j < 8)
    (len : bytes.length < 2 ^ 16 - 8)
    (state : s.convertState = if j = 0 then .genTerminate else .genPadding)
    (emitted : s.Emitted ((frameLanes bytes).take (bytes.length + j)))
    (hpos : f.pos = .gap (j + 1)) (hallow : f.Allows i) :
    ∃ done, Advances (s.edge i) (laneWords ((frameLanes bytes).take (bytes.length + j))) [bytes] f
      (f.step i) done := by
  have hdv : i.rxDv = false := by
    have hthis := hallow hen
    rw [hpos] at hthis
    cases hdv : i.rxDv with
    | false => rfl
    | true =>
      rw [hdv] at hthis
      have hgap : 12 ≤ j + 1 := hthis
      omega
  have hstep : f.step i = { f with pos := .gap (j + 2) } := by simp [Feed.step, hen, hpos, hdv]
  have hframe := length_frameLanes bytes
  have hlen : ((frameLanes bytes).take (bytes.length + j)).length = bytes.length + j := by
    rw [List.length_take]
    omega
  have hlane : s.lane = (bytes.length + j) % 8 :=
    (congrArg (· % 8) emitted.count).trans (congrArg (· % 8) hlen)
  have hcontrol : s.nextGbeControl = true := by rw [nextGbeControl, state]; cases j <;> rfl
  have hbyte : s.nextGbeByte = if j = 0 then rT else rI := by
    rw [nextGbeByte, state]; cases j <;> rfl
  have hwrites : s.writes = true := by rw [writes, state]; cases j <;> rfl
  obtain ⟨hemitted, hwords⟩ := emitted.edge hen hwrites (by rw [hlen]; omega)
  rw [hcontrol, hbyte, ← frameLanes_take bytes room] at hemitted hwords
  have hnext : (s.edge i).convertState = if s.lane = 7 then .idle else .genPadding := by
    rw [edge_convertState hen, nextConvertState, state]
    cases j <;> rfl
  by_cases hlast : bytes.length % 8 + j = 7
  · have hall : (frameLanes bytes).take (bytes.length + j + 1) = frameLanes bytes :=
      List.take_of_length_le (by omega)
    rw [hall] at hemitted hwords
    rw [if_pos (by omega)] at hnext
    have hcount :=
      countWritten_last hen hcontrol hlast (by omega) (by rw [hemitted.count, hframe]; omega)
    refine ⟨[bytes], ⟨[], [], [], ?_, ?_, by rw [hstep, List.append_nil], rfl⟩, hcount, ?_⟩
    · rw [hstep]
      exact .rest _ hnext (by rw [edge_rxDvZ hen, hdv])
    · rw [hwords, List.flatMap_singleton, List.append_nil]
      rfl
    · intro bs hbs
      rwa [List.mem_singleton.mp hbs]
  · rw [if_neg (by omega)] at hnext
    have hcount : (s.edge i).countWritten = [] := by
      have hne : (s.lane == 7) = false := beq_eq_false_iff_ne.mpr (by omega)
      simp [countWritten, edge, hen, hne]
    refine ⟨[], ⟨_, [bytes], [], ?_, hwords, by rw [hstep, List.append_nil], rfl⟩, hcount,
      List.forall_mem_nil _⟩
    rw [hstep]
    exact .tail bytes (j + 1) (by omega) len (by rw [edge_rxDvZ hen, hdv]) hnext hemitted

/-- The state machine follows the frames. -/
theorem Packing.step (h : Packing s f.pos part tail) (hallow : f.Allows i) :
    ∃ done, Advances (s.edge i) part tail f (f.step i) done := by
  cases hen : i.clkEn with
  | false =>
    obtain ⟨hpacking, hwritten, hcount⟩ := h.disabled hen
    have hstep : f.step i = f := by simp [Feed.step, hen]
    refine ⟨[], ⟨part, tail, [], ?_, by rw [hwritten, List.append_nil]; rfl,
      by rw [hstep, List.append_nil], ?_⟩, hcount, List.forall_mem_nil _⟩
    · rwa [hstep]
    · rw [List.append_nil]
      rfl
  | true =>
    generalize hpos : f.pos = pos at h
    cases h with
    | rest n state dv => exact ⟨[], rest_step hen state dv hpos⟩
    | preamble state byte count => exact ⟨[], preamble_step hen state byte count hpos hallow⟩
    | delimiter state byte count => exact ⟨[], delimiter_step hen state byte count hpos hallow⟩
    | copy bytes b len state byte emitted => exact copy_step hen len state byte emitted hpos hallow
    | tail bytes j room len dv state emitted =>
      exact tail_step hen room len state emitted hpos hallow

end GmiiRx

end MlibDevel.FortyGbe
