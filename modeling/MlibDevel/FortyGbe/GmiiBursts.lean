import MlibDevel.FortyGbe.XauiToGmii

/-!
# Frames on the GMII (`xaui_to_gmii_translator.vhd`)

A byte is on the GMII two cycles after it was read from the FIFO, at the lower speeds in the next
cycle that is enabled.  So a terminate character stops the reading one cycle late at 1 Gb/s, when
the next byte of the FIFO is read already.  If it is a control character, this does no harm.

Main results: `bursts_of_noStray` (each frame is one burst, and there is a gap between two of them,
in runs in which this is a control character), `stray_counterexample` (not in all runs).
-/

namespace MlibDevel.FortyGbe.XauiToGmii

/-! ## The samples that are determined -/

/-- What a byte of the FIFO is on the GMII -/
def view (x : Bool × BitVec 8) : Option (BitVec 8) := if x.1 then none else some x.2

namespace Trace

variable {gigabit : Bool} {t : Trace} {i : GmiiCycle}

/-- What has been sampled, and what will be of the bytes that were read. -/
def known (gigabit : Bool) (t : Trace) : List (Option (BitVec 8)) :=
  t.out ++
    if gigabit then
      [t.gmii.sample, if t.gmii.xauiFifoRdreqZ then view t.gmii.xauiFifoDout else none]
    else [if t.gmii.xauiFifoRdreqZ then view t.gmii.xauiFifoDout else t.gmii.sample]

/-- A byte was read in an enabled cycle, and what is on the GMII is at the output of the FIFO. -/
structure Steady (t : Trace) : Prop where
  clkEnZ : t.gmii.xauiFifoRdreqZ = true → t.clkEnZ = true
  txd : t.gmii.xauiFifoRdreqZ = false → t.gmii.gmiiTxEn = true → t.gmii.gmiiTxd =
    t.gmii.xauiFifoDout.2

theorem rdreq_clkEn {s : GmiiTx} (h : s.xauiFifoRdreq i = true) : i.gmiiClkEn = true := by
  simp [GmiiTx.xauiFifoRdreq] at h
  exact h.2

theorem steady_gmiiEdge : (t.gmiiEdge i).Steady where
  clkEnZ h := rdreq_clkEn h
  txd h _ := by
    have hno : t.gmii.xauiFifoRdreq i = false := h
    simp [gmiiEdge, GmiiTx.edge, hno]

/-- What is on the GMII next, if nothing was there or it is sampled -/
theorem sample_gmiiEdge (h : i.gmiiClkEn = true ∨ t.gmii.xauiFifoRdreqZ = true) :
    (t.gmiiEdge i).gmii.sample
    = if t.gmii.xauiFifoRdreqZ then view t.gmii.xauiFifoDout else none := by
  cases hz : t.gmii.xauiFifoRdreqZ with
  | true =>
    cases hc : t.gmii.xauiFifoDout.1 <;> simp [gmiiEdge, GmiiTx.edge, GmiiTx.sample, view, hz, hc]
  | false =>
    rw [hz, or_iff_left Bool.false_ne_true] at h
    simp [gmiiEdge, GmiiTx.edge, GmiiTx.sample, hz, h]

/-- What is on the GMII stays there in a cycle that is not enabled. -/
theorem sample_disabled (hsteady : t.Steady) (hen : i.gmiiClkEn = false)
    (hz : t.gmii.xauiFifoRdreqZ = false) : (t.gmiiEdge i).gmii.sample = t.gmii.sample := by
  cases htx : t.gmii.gmiiTxEn with
  | false => simp [gmiiEdge, GmiiTx.edge, GmiiTx.sample, hz, hen, htx]
  | true => simp [gmiiEdge, GmiiTx.edge, GmiiTx.sample, hz, hen, htx, hsteady.txd hz htx]

/-- The byte that is read is behind the samples that are determined already. -/
theorem known_gmiiEdge (hsteady : t.Steady) (hallows : t.Allows gigabit i) :
    (t.gmiiEdge i).known gigabit = t.known gigabit ++
      if i.gmiiClkEn then [if t.gmii.xauiFifoRdreq i then view (t.fifo.headD default) else none]
        else [] := by
  have hclkEn := hallows.clkEn
  have hread : ∀ v,
    (if (t.gmiiEdge i).gmii.xauiFifoRdreqZ then view (t.gmiiEdge i).gmii.xauiFifoDout else v)
      = if t.gmii.xauiFifoRdreq i then view (t.fifo.headD default) else v := by
    intro v
    cases hrdreq : t.gmii.xauiFifoRdreq i <;> simp [gmiiEdge, GmiiTx.edge, hrdreq]
  cases hen : i.gmiiClkEn with
  | true =>
    have hout : (t.gmiiEdge i).out = t.out ++ [t.gmii.sample] := if_pos hen
    have hsample := sample_gmiiEdge (t := t) (.inl hen)
    cases gigabit with
    | true => simp [known, hread, hsample, hout]
    | false =>
      have hz : t.gmii.xauiFifoRdreqZ = false := by
        cases hz : t.gmii.xauiFifoRdreqZ with
        | false => rfl
        | true => exact absurd (hclkEn (hsteady.clkEnZ hz)) (by rw [hen]; decide)
      simp [known, hread, hsample, hout, hz]
  | false =>
    have hno : t.gmii.xauiFifoRdreq i = false := by simp [GmiiTx.xauiFifoRdreq, hen]
    have hout : (t.gmiiEdge i).out = t.out := if_neg (by rw [hen]; decide)
    cases gigabit with
    | true =>
      rw [if_pos rfl, hen] at hclkEn
      exact absurd hclkEn Bool.false_ne_true
    | false =>
      cases hz : t.gmii.xauiFifoRdreqZ with
      | true =>
        have hsample := sample_gmiiEdge (t := t) (i := i) (.inr hz)
        simp [known, hread, hno, hsample, hout, hz]
      | false => simp [known, hread, hno, sample_disabled hsteady hen hz, hout, hz]

end Trace

/-! ## The gap -/

section Gap

variable {s : GmiiTx} {i : GmiiCycle} {head : Bool × BitVec 8} {n : Nat}

/-- The FIFO can be read, and a terminate character has not been. -/
structure Ready (s : GmiiTx) : Prop where
  counter : s.ifgCounter = 15
  reset : s.ifgCounterReset = false
  quiet : s.xauiFifoRdreqZ = true → isTerminate s.xauiFifoDout = false

/-- Where the translator is between two frames, when `n` empty samples are determined. -/
inductive Pause (s : GmiiTx) (n : Nat) : Prop
  | ready (gap : 12 ≤ n) (ready : Ready s)
  | terminated (gap : 1 ≤ n) (counter : s.ifgCounter = 15) (reset : s.ifgCounterReset = false)
    (rdreqZ : s.xauiFifoRdreqZ = true) (dout : isTerminate s.xauiFifoDout = true)
  | reset (gap : 1 ≤ n) (reset : s.ifgCounterReset = true)
    (quiet : s.xauiFifoRdreqZ = true → isTerminate s.xauiFifoDout = false)
  | counting (k : Nat) (gap : k + 1 ≤ n) (left : k < 15) (counter : s.ifgCounter = BitVec.ofNat 4 k)
    (reset : s.ifgCounterReset = false)
    (quiet : s.xauiFifoRdreqZ = true → isTerminate s.xauiFifoDout = false)

/-- A byte that is no terminate character does not stop the reading. -/
theorem quiet_edge (hhead : s.xauiFifoRdreq i = true → isTerminate head = false) :
    (s.edge i head).xauiFifoRdreqZ = true → isTerminate (s.edge i head).xauiFifoDout = false := by
  intro hread
  have hrdreq : s.xauiFifoRdreq i = true := hread
  rw [GmiiTx.edge, if_pos hrdreq]
  exact hhead hrdreq

theorem reset_edge (quiet : s.xauiFifoRdreqZ = true → isTerminate s.xauiFifoDout = false) :
    (s.edge i head).ifgCounterReset = if i.gmiiClkEn then false else s.ifgCounterReset := by
  cases hz : s.xauiFifoRdreqZ with
  | false => simp [GmiiTx.edge, hz]
  | true => simp [GmiiTx.edge, quiet hz]

theorem Ready.edge (h : Ready s) (hhead : s.xauiFifoRdreq i = true → isTerminate head = false) :
    Ready (s.edge i head) where
  counter := by simp [GmiiTx.edge, h.counter, h.reset]
  reset := by simp [reset_edge h.quiet, h.reset]
  quiet := quiet_edge hhead

/-- The samples stay empty while no byte of a frame is read. -/
theorem Pause.edge (h : Pause s n) (hhead : s.xauiFifoRdreq i = true → isTerminate head = false) :
    Pause (s.edge i head) (if i.gmiiClkEn then n + 1 else n) := by
  have hle : n ≤ if i.gmiiClkEn then n + 1 else n := by split <;> omega
  cases h with
  | ready gap ready => exact .ready (Nat.le_trans gap hle) (ready.edge hhead)
  | terminated gap counter reset rdreqZ dout =>
    refine .reset (Nat.le_trans gap hle) ?_ (quiet_edge hhead)
    simp [GmiiTx.edge, rdreqZ, dout]
  | reset gap reset quiet =>
    cases hen : i.gmiiClkEn with
    | false =>
      refine .reset gap ?_ (quiet_edge hhead)
      simp [reset_edge quiet, hen, reset]
    | true =>
      refine .counting 0 (Nat.succ_le_succ (Nat.zero_le n)) (by decide) ?_ ?_ (quiet_edge hhead)
      · simp [GmiiTx.edge, hen, reset]
      · simp [reset_edge quiet, hen]
  | counting k gap left counter reset quiet =>
    have hreset : (s.edge i head).ifgCounterReset = false := by simp [reset_edge quiet, reset]
    cases hen : i.gmiiClkEn with
    | false =>
      refine .counting k gap left ?_ hreset (quiet_edge hhead)
      simp [GmiiTx.edge, hen, counter]
    | true =>
      have hne : BitVec.ofNat 4 k ≠ 15 := by
        intro heq
        have hnat := congrArg BitVec.toNat heq
        rw [BitVec.toNat_ofNat, Nat.mod_eq_of_lt (by omega)] at hnat
        exact absurd hnat (Nat.ne_of_lt left)
      have hcounter : (s.edge i head).ifgCounter = BitVec.ofNat 4 (k + 1) := by
        rw [BitVec.ofNat_add k 1]
        simp [GmiiTx.edge, hen, reset, counter]
        exact hne
      by_cases hlast : k + 1 = 15
      · rw [hlast] at hcounter
        exact .ready (Nat.le_succ_of_le (by omega)) ⟨hcounter, hreset, quiet_edge hhead⟩
      · exact .counting (k + 1) (Nat.succ_le_succ gap) (by omega) hcounter hreset (quiet_edge hhead)

/-- When the FIFO is read, either there was a gap or a terminate character was read in the cycle
before. -/
theorem Pause.of_rdreq (h : Pause s n) (hrdreq : s.xauiFifoRdreq i = true) :
    12 ≤ n ∧ Ready s ∨ s.xauiFifoRdreqZ = true ∧ isTerminate s.xauiFifoDout = true := by
  simp [GmiiTx.xauiFifoRdreq] at hrdreq
  cases h with
  | ready gap ready => exact .inl ⟨gap, ready⟩
  | terminated gap counter reset rdreqZ dout => exact .inr ⟨rdreqZ, dout⟩
  | reset gap reset quiet => simp [reset] at hrdreq
  | counting k gap left counter reset quiet =>
    have hnat := congrArg BitVec.toNat (counter.symm.trans hrdreq.1.1.2)
    rw [BitVec.toNat_ofNat, Nat.mod_eq_of_lt (by omega)] at hnat
    exact absurd hnat (Nat.ne_of_lt left)

end Gap

/-! ## Frames -/

/-- What is in the FIFO, and what is still to go into it. -/
def Trace.queue (t : Trace) : List (Bool × BitVec 8) := t.fifo ++ (t.xaui.written ++ stored t.input)

/-- Where the translator is in the frames: `known` is what has been determined, and `queue` is to be
read. -/
inductive Position (frames : List (List (BitVec 8))) (s : GmiiTx) (known : List (Option (BitVec 8)))
    (queue : List (Bool × BitVec 8)) : Bool → Prop
  | between (sent rest : List (List (BitVec 8))) (n r : Nat) (all : frames = sent ++ rest)
    (bursts : Bursts sent known n)
      (left : queue = List.replicate r (true, rI) ++ rest.flatMap frameItems)
    (pause : Pause s n) : Position frames s known queue false
  | inside (sent rest : List (List (BitVec 8))) (bytes : List (BitVec 8))
      (pre : List (Option (BitVec 8)))
    (n k : Nat) (all : frames = sent ++ bytes :: rest) (bursts : Bursts sent pre n) (gap : 12 ≤ n)
    (part : k ≤ (preamble ++ bytes).length)
    (now : known = pre ++ ((preamble ++ bytes).take k).map some)
    (left : queue = (frameItems bytes).drop k ++ rest.flatMap frameItems) (ready : Ready s) :
    Position frames s known queue true

theorem frameItems_eq (bytes : List (BitVec 8)) : frameItems bytes
    = (preamble ++ bytes).map (fun b => (false, b)) ++ (true, rT) :: List.replicate
      (7 - bytes.length % 8) (true, rI) := by
  rw [frameItems, frameLanes, List.map_append, List.append_assoc]

/-- The next byte of a frame -/
theorem drop_frameItems {bytes : List (BitVec 8)} {k : Nat} (hk : k < (preamble ++ bytes).length) :
    (frameItems bytes).drop k =
      (false, (preamble ++ bytes)[k]) :: (frameItems bytes).drop (k + 1) := by
  have hlen : k < (frameItems bytes).length := by
    rw [frameItems_eq, List.length_append, List.length_map]
    omega
  have hget : (frameItems bytes)[k] = (false, (preamble ++ bytes)[k]) := by
    simp only [frameItems_eq]
    rw [List.getElem_append_left (by rwa [List.length_map]), List.getElem_map]
  rw [List.drop_eq_getElem_cons hlen, hget]

/-- Behind its bytes is the terminate character. -/
theorem drop_frameItems_length (bytes : List (BitVec 8)) :
    (frameItems bytes).drop (preamble ++ bytes).length
    = (true, rT) :: List.replicate (7 - bytes.length % 8) (true, rI) := by
  rw [frameItems_eq, List.drop_left' (List.length_map _)]

/-- A byte of a frame is read. -/
theorem Position.read_data {frames sent rest : List (List (BitVec 8))} {bytes : List (BitVec 8)}
    {s : GmiiTx} {pre : List (Option (BitVec 8))} {n k : Nat} {i : GmiiCycle}
    (hframes : frames = sent ++ bytes :: rest) (hbursts : Bursts sent pre n) (hgap : 12 ≤ n)
    (hk : k < (preamble ++ bytes).length) (hready : Ready s) :
    Position frames (s.edge i (false, (preamble ++ bytes)[k]))
      (pre ++ ((preamble ++ bytes).take k).map some ++ [view (false, (preamble ++ bytes)[k])])
      ((frameItems bytes).drop (k + 1) ++ rest.flatMap frameItems) true := by
  refine .inside sent rest bytes pre n (k + 1) hframes hbursts hgap hk ?_ rfl
    (hready.edge fun _ => rfl)
  rw [List.take_add_one, List.getElem?_eq_getElem hk, List.map_append, List.append_assoc]
  rfl

/-- The terminate character is read. -/
theorem Position.read_terminate {frames sent rest : List (List (BitVec 8))}
    {bytes : List (BitVec 8)} {s : GmiiTx} {pre : List (Option (BitVec 8))} {n : Nat}
    {i : GmiiCycle} (hframes : frames = sent ++ bytes :: rest) (hbursts : Bursts sent pre n)
    (hgap : 12 ≤ n) (hready : Ready s) (hrdreq : s.xauiFifoRdreq i = true) :
    Position frames (s.edge i (true, rT)) (pre ++ (preamble ++ bytes).map some ++ [view (true, rT)])
      (List.replicate (7 - bytes.length % 8) (true, rI) ++ rest.flatMap frameItems) false := by
  refine .between (sent ++ [bytes]) rest 1 _ (by rw [hframes, List.append_assoc]; rfl)
    (.low (.burst bytes hbursts hgap)) rfl (.terminated (Nat.le_refl 1) ?_ ?_ hrdreq ?_)
  · simp [GmiiTx.edge, hready.counter, hready.reset]
  · simp [reset_edge hready.quiet, hready.reset]
  · simp [GmiiTx.edge, hrdreq, isTerminate]

section Step

variable {frames : List (List (BitVec 8))} {gigabit : Bool} {t : Trace} {i : GmiiCycle}

/-- Where a run is in the frames. -/
def Trace.At (frames : List (List (BitVec 8))) (gigabit : Bool) (t : Trace) : Prop :=
  Position frames t.gmii (t.known gigabit) t.queue t.inFrame

/-- A cycle in which nothing is read. -/
theorem Trace.At.hold (h : t.At frames gigabit) (hsteady : t.Steady) (hallows : t.Allows gigabit i)
    (hno : t.gmii.xauiFifoRdreq i = false) : (t.gmiiEdge i).At frames gigabit := by
  have hqueue : (t.gmiiEdge i).queue = t.queue := by simp [queue, gmiiEdge, hno]
  have hinFrame : (t.gmiiEdge i).inFrame = t.inFrame := by simp [gmiiEdge, hno]
  have hempty := hallows.inFrame
  have hhead : t.gmii.xauiFifoRdreq i = true → isTerminate (t.fifo.headD default) = false := by
    simp [hno]
  rw [At, known_gmiiEdge hsteady hallows, hqueue, hinFrame, hno]
  rw [At] at h
  generalize t.inFrame = inFrame at h hempty
  cases h with
  | between sent rest n r all bursts left pause =>
    refine .between sent rest _ r all ?_ left (pause.edge hhead)
    cases i.gmiiClkEn with
    | true => exact .low bursts
    | false => rwa [if_neg Bool.false_ne_true, if_neg Bool.false_ne_true, List.append_nil]
  | inside sent rest bytes pre n k all bursts gap part now left ready =>
    have hen : i.gmiiClkEn = false := by
      simpa [GmiiTx.xauiFifoRdreq, hempty rfl, hallows.linkUp, ready.counter, ready.reset] using hno
    rw [hen, if_neg Bool.false_ne_true, List.append_nil]
    exact .inside sent rest bytes pre n k all bursts gap part now left (ready.edge hhead)

/-- A cycle in which a byte is read. -/
theorem Trace.At.read (h : t.At frames gigabit) (hsteady : t.Steady)
    (hallows : t.Allows gigabit i) (hok : t.NoStray i) (hrdreq : t.gmii.xauiFifoRdreq i = true) :
    (t.gmiiEdge i).At frames gigabit := by
  obtain ⟨x, fifo, hfifo⟩ : ∃ x fifo, t.fifo = x :: fifo := by
    apply List.exists_cons_of_ne_nil
    intro hnil
    rw [GmiiTx.xauiFifoRdreq, hallows.empty hnil] at hrdreq
    exact absurd hrdreq Bool.false_ne_true
  have hqueue : t.queue = x :: (t.gmiiEdge i).queue := by simp [queue, gmiiEdge, hrdreq, hfifo]
  have hinFrame : (t.gmiiEdge i).inFrame = !x.1 := by simp [gmiiEdge, hrdreq, hfifo]
  have hgmii : (t.gmiiEdge i).gmii = t.gmii.edge i x := by simp [gmiiEdge, hfifo]
  rw [NoStray, hfifo] at hok
  rw [At, known_gmiiEdge hsteady hallows, hinFrame, hgmii, hrdreq, hfifo, rdreq_clkEn hrdreq]
  rw [At, hqueue] at h
  generalize t.inFrame = inFrame at h
  cases h with
  | between sent rest n r all bursts left pause =>
    cases r with
    | succ r =>
      obtain ⟨rfl, hleft⟩ := List.cons.inj left
      have hpause := @Pause.edge _ i (true, rI) _ pause fun _ => rfl
      rw [rdreq_clkEn hrdreq] at hpause
      exact .between sent rest (n + 1) r all (.low bursts) hleft hpause
    | zero =>
      cases rest with
      | nil => exact absurd left (List.cons_ne_nil _ _)
      | cons bytes rest =>
        have hpos : 0 < (preamble ++ bytes).length := by
          rw [List.length_append]
          exact Nat.lt_add_right _ (by decide)
        have hitems := drop_frameItems hpos
        rw [List.drop_zero] at hitems
        rw [List.replicate_zero, List.nil_append, List.flatMap_cons, hitems] at left
        obtain ⟨rfl, hleft⟩ := List.cons.inj left
        rcases pause.of_rdreq hrdreq with ⟨hgap, hready⟩ | ⟨hz, hdout⟩
        · have hfirst := @Position.read_data _ _ _ _ _ _ _ _ i all bursts hgap hpos hready
          rw [List.take_zero, List.map_nil, List.append_nil] at hfirst
          rw [hleft]
          exact hfirst
        · exact absurd (hok hz hdout hrdreq) Bool.false_ne_true
  | inside sent rest bytes pre n k all bursts gap part now left ready =>
    rcases Nat.lt_or_eq_of_le part with hlt | heq
    · rw [drop_frameItems hlt] at left
      obtain ⟨rfl, hleft⟩ := List.cons.inj left
      rw [hleft, now]
      exact .read_data all bursts gap hlt ready
    · rw [heq, drop_frameItems_length] at left
      obtain ⟨rfl, hleft⟩ := List.cons.inj left
      rw [hleft, now, heq, List.take_length]
      exact .read_terminate all bursts gap ready hrdreq

theorem Trace.queue_xauiEdge : t.xauiEdge.queue = t.queue := by
  cases hinput : t.input with
  | nil =>
    simp [queue, xauiEdge, hinput, stored]
    rfl
  | cons w input => simp [queue, xauiEdge, hinput, stored]

/-- **At every point of such a run it is somewhere in the frames.** -/
theorem Trace.Reached.at_frames (h : t.Reached gigabit NoStray frames) :
    t.Steady ∧ t.At frames gigabit := by
  induction h with
  | reset hwire =>
    refine ⟨⟨(fun h => by cases h), (fun _ h => by cases h)⟩, ?_⟩
    have hqueue := hwire.stored_eq
    refine .between [] frames (if gigabit then 14 else 13) 0 rfl ?_ hqueue ?_
    · cases gigabit with
      | true => exact .low (.low .start)
      | false => exact .low .start
    · exact .ready (by split <;> decide) ⟨rfl, rfl, (fun h => by cases h)⟩
  | xaui _ ih =>
    obtain ⟨hsteady, hat⟩ := ih
    refine ⟨⟨hsteady.clkEnZ, hsteady.txd⟩, ?_⟩
    rw [At, queue_xauiEdge]
    exact hat
  | @gmii t i _ hallows hok ih =>
    refine ⟨steady_gmiiEdge, ?_⟩
    cases hrdreq : t.gmii.xauiFifoRdreq i with
    | true => exact ih.2.read ih.1 hallows hok hrdreq
    | false => exact ih.2.hold ih.1 hallows hrdreq

/-- What has been sampled can be continued to whole bursts. -/
theorem Trace.At.toBursts (h : t.At frames gigabit) :
    ∃ sent more n, sent <+: frames ∧ Bursts sent (t.out ++ more) n := by
  obtain ⟨ahead, hknown⟩ : ∃ ahead, t.known gigabit = t.out ++ ahead := ⟨_, rfl⟩
  rw [At, hknown] at h
  generalize t.inFrame = inFrame at h
  cases h with
  | between sent rest n r all bursts left pause =>
    exact ⟨sent, ahead, n, all ▸ List.prefix_append _ _, bursts⟩
  | inside sent rest bytes pre n k all bursts gap part now left ready =>
    refine ⟨sent ++ [bytes], ahead ++ ((preamble ++ bytes).drop k).map some, 0, ?_, ?_⟩
    · exact ⟨rest, by rw [all, List.append_assoc]; rfl⟩
    · rw [← List.append_assoc, now, List.append_assoc, ← List.map_append, List.take_append_drop]
      exact .burst bytes bursts gap

/-- Nothing is left in the translator. -/
structure Trace.Empty (t : Trace) : Prop where
  input : t.input = []
  written : t.xaui.written = []
  fifo : t.fifo = []
  rdreqZ : t.gmii.xauiFifoRdreqZ = false
  txEn : t.gmii.gmiiTxEn = false

theorem Bursts.of_low {out : List (Option (BitVec 8))} {n : Nat}
    (h : Bursts frames (out ++ [none]) n) : ∃ m, Bursts frames out m := by
  generalize hall : out ++ [none] = all at h
  cases h with
  | start => exact absurd hall (by simp)
  | low h =>
    rw [List.append_cancel_right hall]
    exact ⟨_, h⟩
  | @burst frames pre n bytes h gap =>
    have hlast := congrArg List.getLast? hall
    rw [List.getLast?_append_of_ne_nil _ (List.cons_ne_nil _ _),
      List.getLast?_append_of_ne_nil _ (by simp [preamble]), List.getLast?_map] at hlast
    cases hget : (preamble ++ bytes).getLast? <;> simp [hget] at hlast

theorem Trace.At.bursts_of_empty (h : t.At frames gigabit) (hempty : t.Empty) :
    ∃ n, Bursts frames t.out n := by
  have hqueue : t.queue = [] := by
    rw [queue, hempty.input, hempty.written, hempty.fifo]
    rfl
  have hknown : t.known gigabit =
      if gigabit then t.out ++ [none] ++ [none] else t.out ++ [none] := by
    cases gigabit <;> simp [known, GmiiTx.sample, hempty.rdreqZ, hempty.txEn]
  rw [At, hqueue, hknown] at h
  generalize t.inFrame = inFrame at h
  cases h with
  | between sent rest n r all bursts left pause =>
    cases rest with
    | nil =>
      rw [List.append_nil] at all
      subst all
      cases gigabit with
      | true =>
        obtain ⟨m, hm⟩ := bursts.of_low
        exact hm.of_low
      | false => exact bursts.of_low
    | cons bytes rest => simp [frameItems, preamble] at left
  | inside sent rest bytes pre n k all bursts gap part now left ready =>
    have hlen := congrArg List.length left
    rw [frameItems_eq, List.length_append, List.length_drop, List.length_append, List.length_cons,
      List.length_map] at hlen
    exact absurd hlen (by rw [List.length_nil]; omega)

/-! ### Everything is read in the end -/

/-- A cycle that is enabled when it may be, with a FIFO that can be read, except behind a terminate
character -/
def Trace.drainCycle (gigabit : Bool) (t : Trace) : GmiiCycle where
  gmiiClkEn := gigabit || !t.clkEnZ
  gmiiLinkUp := true
  xauiFifoEmpty := t.fifo.isEmpty || (t.gmii.xauiFifoRdreqZ && isTerminate t.gmii.xauiFifoDout)

/-- How long the FIFO is not read -/
def GmiiTx.wait (s : GmiiTx) : Nat :=
  if s.xauiFifoRdreqZ && isTerminate s.xauiFifoDout then 17
  else if s.ifgCounterReset then 16
  else 15 - s.ifgCounter.toNat

/-- How long bytes that were read are on their way -/
def GmiiTx.onTheWay (s : GmiiTx) : Nat :=
  (if s.xauiFifoRdreqZ then 2 else 0) + if s.gmiiTxEn then 1 else 0

def Trace.rank (gigabit : Bool) (t : Trace) : Nat :=
  64 * t.fifo.length + 2 * (t.gmii.wait + t.gmii.onTheWay) + if gigabit || !t.clkEnZ then 0 else 1

theorem wait_le (s : GmiiTx) : s.wait ≤ 17 := by
  rw [GmiiTx.wait]
  split
  · omega
  · split <;> omega

theorem onTheWay_le (s : GmiiTx) : s.onTheWay ≤ 3 := by
  rw [GmiiTx.onTheWay]
  split <;> split <;> omega

variable {s : GmiiTx} {head : Bool × BitVec 8}

/-- While nothing is read, the waiting gets no longer, and shorter with each enabled cycle. -/
theorem wait_edge (hno : s.xauiFifoRdreq i = false) : (s.edge i head).wait ≤ s.wait ∧
    (i.gmiiClkEn = true → s.wait ≠ 0 → (s.edge i head).wait < s.wait) := by
  have hz : (s.edge i head).xauiFifoRdreqZ = false := hno
  have hwait : (s.edge i head).wait
      = if (s.edge i head).ifgCounterReset then 16 else 15 - (s.edge i head).ifgCounter.toNat := by
    rw [GmiiTx.wait, hz]
    rfl
  cases hquiet : s.xauiFifoRdreqZ && isTerminate s.xauiFifoDout with
  | true =>
    have hreset : (s.edge i head).ifgCounterReset = true := by simp [GmiiTx.edge, hquiet]
    have hold : s.wait = 17 := by simp [GmiiTx.wait, hquiet]
    rw [hwait, hreset, hold]
    exact ⟨Nat.le_succ 16, fun _ _ => Nat.lt_succ_self 16⟩
  | false =>
    have hreset : (s.edge i head).ifgCounterReset =
        if i.gmiiClkEn then false else s.ifgCounterReset := by
      simp [GmiiTx.edge, hquiet]
    have hold : s.wait = if s.ifgCounterReset then 16 else 15 - s.ifgCounter.toNat := by
      simp [GmiiTx.wait, hquiet]
    rw [hwait, hreset, hold]
    cases hen : i.gmiiClkEn with
    | false => simp [GmiiTx.edge, hen]
    | true =>
      cases hr : s.ifgCounterReset with
      | true =>
        simp
        omega
      | false =>
        have hlt : s.ifgCounter.toNat < 16 := s.ifgCounter.isLt
        have hcounter : (s.edge i head).ifgCounter.toNat = min 15 (s.ifgCounter.toNat + 1) := by
          by_cases hlast : s.ifgCounter = 15
          · simp [GmiiTx.edge, hen, hr, hlast]
          · have hne : s.ifgCounter.toNat ≠ 15 := fun heq => hlast (BitVec.eq_of_toNat_eq heq)
            have hnext : (s.edge i head).ifgCounter = s.ifgCounter + 1 := by
              rw [GmiiTx.edge, hen, hr, if_neg Bool.false_ne_true, if_neg hlast]
              rfl
            have hadd : (s.ifgCounter + 1).toNat = s.ifgCounter.toNat + 1 := by
              rw [BitVec.toNat_add]
              exact Nat.mod_eq_of_lt (by show s.ifgCounter.toNat + 1 < 16; omega)
            rw [hnext, hadd]
            omega
        simp [hcounter]
        omega

theorem onTheWay_edge (hno : s.xauiFifoRdreq i = false) : (s.edge i head).onTheWay ≤ s.onTheWay ∧
    (i.gmiiClkEn = true → s.onTheWay ≠ 0 → (s.edge i head).onTheWay < s.onTheWay) := by
  cases hread : s.xauiFifoRdreqZ <;> cases hen : i.gmiiClkEn <;> cases htx : s.gmiiTxEn <;>
    cases hc : s.xauiFifoDout.1 <;> simp [GmiiTx.onTheWay, GmiiTx.edge, hno, hread, hen, htx, hc]

/-- With each such cycle there is less to be read. -/
theorem Trace.rank_drain (hinput : t.input = []) (hwritten : t.xaui.written = []) (hne : ¬t.Empty) :
    (t.gmiiEdge (t.drainCycle gigabit)).rank gigabit < t.rank gigabit := by
  have hwaitLe := wait_le (t.gmiiEdge (t.drainCycle gigabit)).gmii
  have hwayLe := onTheWay_le (t.gmiiEdge (t.drainCycle gigabit)).gmii
  have hclkEn : (t.drainCycle gigabit).gmiiClkEn = (gigabit || !t.clkEnZ) := rfl
  cases hrdreq : t.gmii.xauiFifoRdreq (t.drainCycle gigabit) with
  | true =>
    have hfifo : t.fifo ≠ [] := by
      intro hnil
      simp [GmiiTx.xauiFifoRdreq, drainCycle, hnil] at hrdreq
    have hlen : (t.gmiiEdge (t.drainCycle gigabit)).fifo.length + 1 = t.fifo.length := by
      have hpos := List.length_pos_iff.mpr hfifo
      simp [gmiiEdge, hrdreq]
      omega
    rw [rank, rank, ← hlen]
    split <;> split <;> omega
  | false =>
    have hlen : (t.gmiiEdge (t.drainCycle gigabit)).fifo = t.fifo := by simp [gmiiEdge, hrdreq]
    obtain ⟨hwait, hless⟩ := @wait_edge _ _ (t.fifo.headD default) hrdreq
    obtain ⟨hway, hwayLess⟩ := @onTheWay_edge _ _ (t.fifo.headD default) hrdreq
    have hnext : (t.gmiiEdge (t.drainCycle gigabit)).clkEnZ = (gigabit || !t.clkEnZ) := rfl
    rw [rank, rank, hlen, hnext]
    rw [hclkEn] at hless hwayLess
    cases hen : gigabit || !t.clkEnZ with
    | false =>
      obtain ⟨rfl, -⟩ := Bool.or_eq_false_iff.mp hen
      rw [Bool.false_or, Bool.not_false, if_pos rfl, if_neg Bool.false_ne_true]
      show 64 * _ + 2 * ((t.gmii.edge _ _).wait + (t.gmii.edge _ _).onTheWay) + 0 < _
      omega
    | true =>
      have hbusy : t.gmii.onTheWay ≠ 0 ∨ t.gmii.wait ≠ 0 := by
        by_contra hboth
        rw [not_or, not_not, not_not] at hboth
        obtain ⟨hzero, hready⟩ := hboth
        have hz : t.gmii.xauiFifoRdreqZ = false := by
          cases hz : t.gmii.xauiFifoRdreqZ with
          | false => rfl
          | true => simp [GmiiTx.onTheWay, hz] at hzero
        have htx : t.gmii.gmiiTxEn = false := by
          cases htx : t.gmii.gmiiTxEn with
          | false => rfl
          | true => simp [GmiiTx.onTheWay, htx] at hzero
        have hfifo : t.fifo ≠ [] := fun hnil => hne ⟨hinput, hwritten, hnil, hz, htx⟩
        have hreset : t.gmii.ifgCounterReset = false := by
          cases hr : t.gmii.ifgCounterReset with
          | false => rfl
          | true => simp [GmiiTx.wait, hz, hr] at hready
        have hcounter : t.gmii.ifgCounter = 15 := by
          have hlt : t.gmii.ifgCounter.toNat < 16 := t.gmii.ifgCounter.isLt
          simp [GmiiTx.wait, hz, hreset] at hready
          exact BitVec.eq_of_toNat_eq (by show _ = 15; omega)
        simp [GmiiTx.xauiFifoRdreq, hclkEn, hen] at hrdreq
        simp [drainCycle, hfifo, hz, hcounter, hreset] at hrdreq
      have hsum : (t.gmii.edge (t.drainCycle gigabit) (t.fifo.headD default)).wait
          + (t.gmii.edge (t.drainCycle gigabit) (t.fifo.headD default)).onTheWay <
            t.gmii.wait + t.gmii.onTheWay := by
        rcases hbusy with hbusy | hbusy
        · have hlt := hwayLess hen hbusy
          omega
        · have hlt := hless hen hbusy
          omega
      rw [if_pos rfl]
      show 64 * _ + 2 * ((t.gmii.edge _ _).wait + (t.gmii.edge _ _).onTheWay) + _ < _
      split <;> omega

theorem Trace.drain_allows (hat : t.At frames gigabit) (hinput : t.input = [])
    (hwritten : t.xaui.written = []) : t.Allows gigabit (t.drainCycle gigabit) where
  linkUp := rfl
  empty hnil := by simp [drainCycle, hnil]
  inFrame hin := by
    rw [At, hin] at hat
    cases hat with
    | inside sent rest bytes pre n k all bursts gap part now left ready =>
      have hlen := congrArg List.length left
      rw [queue, hwritten, hinput, List.length_append, List.length_append, List.length_append,
        List.length_drop, frameItems_eq, List.length_append, List.length_cons,
        List.length_map] at hlen
      have hfifo : t.fifo ≠ [] := by
        intro hnil
        rw [hnil, stored, List.flatMap_nil, List.length_nil] at hlen
        omega
      have hquiet : (t.gmii.xauiFifoRdreqZ && isTerminate t.gmii.xauiFifoDout) = false := by
        cases hz : t.gmii.xauiFifoRdreqZ with
        | false => rfl
        | true => exact ready.quiet hz
      simp [drainCycle, hfifo, hquiet]
  clkEn := by cases gigabit <;> simp [drainCycle]

theorem Trace.drain_noStray : t.NoStray (t.drainCycle gigabit) := by
  intro hz hdout hrdreq
  simp [GmiiTx.xauiFifoRdreq, drainCycle, hz, hdout] at hrdreq

/-- Everything that is in the FIFO can be put out. -/
theorem Trace.Reached.drain (h : t.Reached gigabit NoStray frames) (hinput : t.input = [])
    (hwritten : t.xaui.written = []) :
    ∃ t', Reached gigabit NoStray frames t' ∧ t'.Empty ∧ t.out <+: t'.out := by
  induction hrank : t.rank gigabit using Nat.strongRecOn generalizing t with
  | ind r ih =>
    subst hrank
    by_cases hempty : t.Empty
    · exact ⟨t, h, hempty, List.prefix_refl _⟩
    · have hnext := h.gmii _ (drain_allows h.at_frames.2 hinput hwritten) drain_noStray
      obtain ⟨t', hreached, hempty', hprefix⟩ :=
        ih _ (rank_drain hinput hwritten hempty) hnext hinput hwritten rfl
      refine ⟨t', hreached, hempty', List.IsPrefix.trans ?_ hprefix⟩
      show t.out <+: if _ then _ else _
      split
      · exact List.prefix_append _ _
      · exact List.prefix_refl _

/-- All words can be put into the FIFO. -/
theorem Trace.Reached.fill (h : t.Reached gigabit NoStray frames) :
    ∃ t', Reached gigabit NoStray frames t' ∧ t'.input = [] ∧ t'.xaui.written = [] ∧
      t'.out = t.out := by
  induction hinput : t.input generalizing t with
  | nil => exact ⟨_, h.xaui, by simp [xauiEdge, hinput], by simp [xauiEdge, hinput]; rfl, rfl⟩
  | cons w input ih =>
    obtain ⟨t', hreached, hnil, hwritten, hout⟩ := ih h.xaui (by simp [xauiEdge, hinput])
    exact ⟨t', hreached, hnil, hwritten, hout⟩

end Step

/--
**Each frame is one burst, and there is a gap between two of them**, if what is read in the cycle
after a terminate character is a control character.  When nothing is left in the translator, all
frames are there.
-/
theorem bursts_of_noStray {gigabit : Bool} {frames : List (List (BitVec 8))} {t : Trace}
    (h : t.Reached gigabit Trace.NoStray frames) :
    (∃ sent more n, sent <+: frames ∧ Bursts sent (t.out ++ more) n) ∧
      (t.Empty → ∃ n, Bursts frames t.out n) ∧
      ∃ t', Trace.Reached gigabit Trace.NoStray frames t' ∧ t'.Empty ∧ t.out <+: t'.out := by
  refine ⟨h.at_frames.2.toBursts, h.at_frames.2.bursts_of_empty, ?_⟩
  obtain ⟨t₁, hreached, hinput, hwritten, hout⟩ := h.fill
  rw [← hout]
  exact hreached.drain hinput hwritten

/-- Two frames whose terminate characters are in the last lane -/
def twoFrames : List (List (BitVec 8)) := [[1, 2, 3, 4, 5, 6, 7], [8, 9, 10, 11, 12, 13, 14]]

/-- Their words, one after the other -/
def twoFramesWords : List Xlgmii := twoFrames.flatMap fun bytes => startWord :: frameWords bytes

theorem twoFrames_wire : Wire twoFrames twoFramesWords := .frame _ (.frame _ .nil)

theorem bursts_of_noStray_twoFrames :
    ∃ t, Trace.Reached true Trace.NoStray twoFrames t ∧ ∃ n, Bursts twoFrames t.out n := by
  obtain ⟨t, hreached, hempty, -⟩ :=
    (bursts_of_noStray (@Trace.Reached.reset true Trace.NoStray _ _ twoFrames_wire)).2.2
  exact ⟨t, hreached, (bursts_of_noStray hreached).2.1 hempty⟩

/-! ## A byte that is read too early -/

/-- The samples behind the last burst are empty. -/
theorem Bursts.lt_of_some {frames : List (List (BitVec 8))} {out : List (Option (BitVec 8))}
    {n : Nat} (h : Bursts frames out n) {i : Nat} {b : BitVec 8} (hi : out[i]? = some (some b)) :
    i + n < out.length := by
  induction h with
  | start => exact absurd hi (by simp)
  | @low frames out n _ ih =>
    rw [List.length_append, List.length_singleton]
    rcases Nat.lt_or_ge i out.length with hlt | hge
    · rw [List.getElem?_append_left hlt] at hi
      have hthis := ih hi
      omega
    · rw [List.getElem?_append_right hge] at hi
      cases hsub : i - out.length <;> simp [hsub] at hi
  | burst => exact (List.getElem?_eq_some_iff.mp hi).1

/-- Between two bursts there are 12 empty samples at least. -/
theorem Bursts.gap {frames : List (List (BitVec 8))} {out : List (Option (BitVec 8))} {n : Nat}
    (h : Bursts frames out n) {i m j : Nat} {b b' : BitVec 8} (him : i < m) (hmj : m < j)
    (hi : out[i]? = some (some b)) (hm : out[m]? = some none) (hj : out[j]? = some (some b')) :
    i + 12 < j := by
  induction h with
  | start => exact absurd hi (by simp)
  | @low frames out n _ ih =>
    have hlt : j < out.length := by
      rcases Nat.lt_or_ge j out.length with hlt | hge
      · exact hlt
      · rw [List.getElem?_append_right hge] at hj
        cases hsub : j - out.length <;> simp [hsub] at hj
    rw [List.getElem?_append_left (by omega)] at hi hm hj
    exact ih hi hm hj
  | @burst frames out n bytes hpre gap ih =>
    rcases Nat.lt_or_ge m out.length with hlt | hge
    · rw [List.getElem?_append_left (by omega)] at hi
      have hthis := hpre.lt_of_some hi
      rcases Nat.lt_or_ge j out.length with hjlt | hjge
      · rw [List.getElem?_append_left hlt] at hm
        rw [List.getElem?_append_left hjlt] at hj
        exact ih hi hm hj
      · omega
    · rw [List.getElem?_append_right hge, List.getElem?_map] at hm
      cases hget : (preamble ++ bytes)[m - out.length]? <;> simp [hget] at hm

/-- `m` cycles at 1 Gb/s in which the FIFO can be read. -/
def Trace.run (t : Trace) : Nat → Trace
  | 0 => t
  | m + 1 => (t.run m).gmiiEdge ⟨true, true, false⟩

theorem Trace.Reached.run {frames : List (List (BitVec 8))} {t : Trace}
    (h : t.Reached true (fun _ _ => True) frames) :
    ∀ m, (∀ k < m, (t.run k).fifo ≠ []) → Reached true (fun _ _ => True) frames (t.run m)
  | 0, _ => h
  | m + 1, hfifo =>
    .gmii _ (h.run m fun k hk => hfifo k (Nat.lt_succ_of_lt hk))
      ⟨rfl, fun hnil => absurd hnil (hfifo m (Nat.lt_succ_self m)), fun _ => rfl, rfl⟩ trivial

/-- The two frames are in the FIFO. -/
def twoFramesStored : Trace :=
  (Trace.reset twoFramesWords).xauiEdge.xauiEdge.xauiEdge.xauiEdge.xauiEdge

theorem twoFramesStored_reached : twoFramesStored.Reached true (fun _ _ => True) twoFrames :=
  .xaui (.xaui (.xaui (.xaui (.xaui (.reset twoFrames_wire)))))

/-- The first byte of the second frame is put out behind the first frame, with one empty sample
between them. -/
theorem stray_counterexample : ∃ t, Trace.Reached true (fun _ _ => True) twoFrames t ∧
    ¬∃ sent more n, sent <+: twoFrames ∧ Bursts sent (t.out ++ more) n := by
  refine ⟨twoFramesStored.run 19, twoFramesStored_reached.run 19 (by decide +kernel), ?_⟩
  rintro ⟨sent, more, n, -, hbursts⟩
  have hlen : (twoFramesStored.run 19).out.length = 19 := by decide +kernel
  have hat : ∀ k, k < 19 → ((twoFramesStored.run 19).out ++ more)[k]? =
      (twoFramesStored.run 19).out[k]? :=
    fun k hk => List.getElem?_append_left (hlen ▸ hk)
  have hlast :=
    (hat 16 (by decide)).trans
      (by decide +kernel : (twoFramesStored.run 19).out[16]? = some (some 7))
  have hlow :=
    (hat 17 (by decide)).trans (by decide +kernel : (twoFramesStored.run 19).out[17]? = some none)
  have hfirst :=
    (hat 18 (by decide)).trans
      (by decide +kernel : (twoFramesStored.run 19).out[18]? = some (some 0x55))
  exact absurd (hbursts.gap (by decide) (by decide) hlast hlow hfirst) (by decide)

end MlibDevel.FortyGbe.XauiToGmii
