import MlibDevel.Jam.HexText
import MlibDevel.Jam.Regions
import Mathlib.Data.List.TakeWhile

/-!
# Netascii writes

`casper_tapcp_write_fpga_words_ascii` keeps the unfinished line in `line_buf`, an index `lidx`, a
flag for the line's first colon and, within a call, a pointer `plb`.  They are not all reset
together: after a line `plb` stays where its data ended until a colon or the next call moves it
back, and a line with a label and nothing else leaves the flag set.

`Scan` says in terms of the text where this leaves the writer, and `Scan.Orderly` which streams,
cut into which blocks, never run into it.  For these the words written are those of the format
(`sendBlocks_hexWords`); `1` and `2` on two lines of one block are written as `1` and `0x12`
(`sendBlocks_twoLines`).
-/

namespace MlibDevel.Jam

open Lib

/-! ## Reading along -/

/-- Where a stream leaves the writer. -/
structure Scan where
  /-- the bytes of the unfinished line -/
  line : List UInt8
  /-- a line with a label and no text has ended, and none with text since -/
  held : Bool
  /-- how much data the last line with text had, if neither a label nor a new block followed -/
  ahead : Nat
  /-- the unfinished line does not stand at the beginning of `line_buf` -/
  mixed : Bool
  deriving DecidableEq, Repr

namespace Scan

/-- The beginning of a file. -/
def start : Scan := ⟨[], false, 0, false⟩

/-- What `line_buf` is to hold of the unfinished line: no label and no leading white space. -/
def text (t : Scan) : List UInt8 := (lineText t.line).dropWhile isspace

/-- The flag for the line's first colon. -/
def flag (t : Scan) : UInt32 := if t.held = true ∨ colon ∈ t.line then 1 else 0

/-- The byte is white space in front of the text. -/
def Skips (t : Scan) (c : UInt8) : Prop := t.text = [] ∧ isspace c = true

/-- The byte is the first colon of its line. -/
def Labels (t : Scan) (c : UInt8) : Prop := c = colon ∧ colon ∉ t.line

instance (t : Scan) (c : UInt8) : Decidable (t.Skips c) :=
  inferInstanceAs (Decidable (_ ∧ _))

instance (t : Scan) (c : UInt8) : Decidable (t.Labels c) :=
  inferInstanceAs (Decidable (_ ∧ _))

/--
The writer can take the byte: the line fits in `line_buf`, a label does not follow one that had no
text, and a line with text is not added to what is left of the one before.
-/
def Allows (t : Scan) (c : UInt8) : Prop :=
  t.text.length < lineBufSize ∧
    (t.Skips c ∨
      (t.Labels c ∧ t.held = false) ∨
      (¬t.Labels c ∧ t.ahead + t.text.length < lineBufSize ∧ (c = newline → t.mixed = false)))

instance (t : Scan) (c : UInt8) : Decidable (t.Allows c) :=
  inferInstanceAs (Decidable (_ ∧ (_ ∨ (_ ∧ _) ∨ (_ ∧ _ ∧ (_ → _)))))

/-- The next byte. -/
def next (t : Scan) (c : UInt8) : Scan :=
  if c = newline then
    if t.text = [] then { t with line := [], held := t.held || decide (colon ∈ t.line) }
    else ⟨[], false, dataLength t.text, decide (dataLength t.text ≠ 0)⟩
  else if t.Labels c then { t with line := t.line ++ [c], ahead := 0, mixed := false }
  else { t with line := t.line ++ [c] }

/-- A new block begins. -/
def cut (t : Scan) : Scan := { t with ahead := 0, mixed := t.mixed && decide (t.text ≠ []) }

/-- The writer can take the bytes of a block. -/
def AllowsAll : Scan → List UInt8 → Prop
  | _, [] => True
  | t, c :: cs => t.Allows c ∧ (t.next c).AllowsAll cs

/-- The writer can take a stream that is cut into blocks. -/
def Orderly : Scan → List (List UInt8) → Prop
  | _, [] => True
  | t, b :: bs => t.AllowsAll b ∧ (b.foldl next t).cut.Orderly bs

instance decidableAllowsAll : ∀ (t : Scan) (cs : List UInt8), Decidable (t.AllowsAll cs)
  | _, [] => inferInstanceAs (Decidable True)
  | t, c :: cs => @instDecidableAnd _ _ _ (decidableAllowsAll (t.next c) cs)

instance decidableOrderly : ∀ (t : Scan) (bs : List (List UInt8)), Decidable (t.Orderly bs)
  | _, [] => inferInstanceAs (Decidable True)
  | t, b :: bs => @instDecidableAnd _ _ _ (decidableOrderly (b.foldl next t).cut bs)

/-- The words that the end of a line writes. -/
def words (t : Scan) (c : UInt8) : List UInt32 :=
  if c = newline then textWords t.text else []

/-- The words that bytes write. -/
def allWords : Scan → List UInt8 → List UInt32
  | _, [] => []
  | t, c :: cs => t.words c ++ (t.next c).allWords cs

/-! ## The text of the unfinished line -/

theorem newline_not_mem_text {t : Scan} (h : newline ∉ t.line) : newline ∉ t.text := by
  intro hmem
  have hmem : newline ∈ lineText t.line := (List.dropWhile_suffix _).subset hmem
  rw [lineText] at hmem
  split at hmem
  · exact h ((List.dropWhile_suffix _).subset (List.mem_of_mem_tail hmem))
  · exact h hmem

/-- The words of the line are those of its text. -/
theorem textWords_text (t : Scan) : textWords t.text = textWords (lineText t.line) :=
  textWords_dropWhile _

theorem next_line (t : Scan) (c : UInt8) :
    (t.next c).line = if c = newline then [] else t.line ++ [c] := by
  rw [next]
  split
  · split <;> rfl
  · split <;> rfl

/-- **The words that bytes write are those of the format.** -/
theorem hexWords_scan : ∀ {t : Scan} (cs : List UInt8), newline ∉ t.line →
    hexWords (t.line ++ cs) = t.allWords cs
  | t, [], h => by
    rw [List.append_nil, hexWords_unterminated h, allWords]
  | t, c :: cs, h => by
    rw [allWords, words]
    by_cases hc : c = newline
    · have hline : (t.next c).line = [] := by rw [next_line, if_pos hc]
      rw [if_pos hc, hc, hexWords_line h, textWords_text, ← hc,
        ← hexWords_scan cs (by rw [hline]; simp), hline, List.nil_append]
    · have hline : (t.next c).line = t.line ++ [c] := by rw [next_line, if_neg hc]
      rw [if_neg hc, List.nil_append, ← hexWords_scan cs (by rw [hline]; simp [h, Ne.symm hc]),
        hline, List.append_assoc, List.singleton_append]

theorem allWords_append : ∀ (t : Scan) (xs ys : List UInt8),
    t.allWords (xs ++ ys) = t.allWords xs ++ (xs.foldl next t).allWords ys
  | _, [], _ => rfl
  | t, c :: xs, ys => by
    rw [List.cons_append, allWords, allWords, allWords_append, List.append_assoc, List.foldl_cons]

/-- After the first colon the text begins. -/
theorem lineText_label {line : List UInt8} (h : colon ∉ line) :
    lineText (line ++ [colon]) = [] := by
  rw [lineText, if_pos (List.mem_append_right _ (List.mem_singleton_self _)),
    List.dropWhile_append_of_pos fun c hc => ?_]
  · rfl
  · rw [decide_eq_true_eq]
    rintro rfl
    exact h hc

/-- Any other byte adds to it. -/
theorem lineText_append {line : List UInt8} {c : UInt8} (h : ¬(c = colon ∧ colon ∉ line)) :
    lineText (line ++ [c]) = lineText line ++ [c] := by
  by_cases hmem : colon ∈ line
  · have hne : line.dropWhile (· ≠ colon) ≠ [] := fun he =>
      absurd (List.dropWhile_eq_nil_iff.mp he colon hmem) (by decide)
    rw [lineText, lineText, if_pos (List.mem_append_left _ hmem), if_pos hmem,
      List.dropWhile_append, if_neg (by simpa using hne), List.tail_append_of_ne_nil hne]
  · have hc : c ≠ colon := fun he => h ⟨he, hmem⟩
    rw [lineText, lineText, if_neg hmem, if_neg]
    rw [List.mem_append, List.mem_singleton]
    rintro (hl | rfl)
    · exact hmem hl
    · exact hc rfl

theorem text_label {t : Scan} {line : List UInt8} (h : colon ∉ line) :
    ({ t with line := line ++ [colon] } : Scan).text = [] := by
  rw [text, lineText_label h]
  rfl

theorem colon_mem_append {t : Scan} {c : UInt8} (h : ¬t.Labels c) :
    colon ∈ t.line ++ [c] ↔ colon ∈ t.line := by
  rw [List.mem_append, List.mem_singleton]
  refine or_iff_left_of_imp fun hc => ?_
  by_contra hmem
  exact h ⟨hc.symm, hmem⟩

theorem flag_append {t : Scan} {c : UInt8} (h : ¬t.Labels c) :
    ({ t with line := t.line ++ [c] } : Scan).flag = t.flag := by
  simp only [flag, colon_mem_append h]

theorem dropWhile_append_singleton (p : UInt8 → Bool) (l : List UInt8) (c : UInt8) :
    (l ++ [c]).dropWhile p =
      if l.dropWhile p = [] ∧ p c = true then [] else l.dropWhile p ++ [c] := by
  rw [List.dropWhile_append]
  by_cases hnil : l.dropWhile p = []
  · rw [hnil]
    cases hp : p c <;> simp [hp]
  · simp [hnil]

/-- Leading white space is not part of the text, any other byte is added to it. -/
theorem text_append {t : Scan} {c : UInt8} (h : ¬t.Labels c) :
    (lineText (t.line ++ [c])).dropWhile isspace = if t.Skips c then [] else t.text ++ [c] := by
  rw [lineText_append h, dropWhile_append_singleton]
  rfl

end Scan

/-! ## A byte -/

/-- The state of the code agrees with a scan of the text. -/
structure Stands (t : Scan) (s : Tapcp) (plb : Nat) : Prop where
  line : newline ∉ t.line
  lidx : s.lidx = t.text.length
  plb : plb = t.ahead + t.text.length
  u32 : s.u32 = t.flag
  kept : t.mixed = false → t.ahead = 0 ∧ s.lineBuf.bytes.take t.text.length = t.text

section

variable {t : Scan} {s : Tapcp} {plb : Nat} {c : UInt8}

/-- The line fits. -/
theorem Stands.in_range (h : Stands t s plb) (hlen : t.text.length < lineBufSize) :
    ¬(s.lidx < 0 ∨ (lineBufSize : Int) ≤ s.lidx) := by
  rw [h.lidx]
  omega

theorem Stands.skips_iff (h : Stands t s plb) : (s.lidx = 0 ∧ isspace c = true) ↔ t.Skips c := by
  rw [Scan.Skips, h.lidx, ← List.length_eq_zero_iff, Int.natCast_eq_zero]

theorem Stands.labels_iff (h : Stands t s plb) (hheld : t.Labels c → t.held = false) :
    (c = colon ∧ s.u32 = 0) ↔ t.Labels c := by
  rw [Scan.Labels] at hheld ⊢
  rw [h.u32, Scan.flag]
  refine and_congr_right fun hc => ?_
  split
  · next hor =>
    refine iff_of_false (by decide) fun hn => ?_
    rcases hor with hh | hm
    · rw [hheld ⟨hc, hn⟩] at hh
      cases hh
    · exact hn hm
  · next hor => exact iff_of_true rfl fun hm => hor (Or.inr hm)

/-- White space in front of a text is left out; at the end of a line without text the flag stays. -/
theorem Stands.skip (h : Stands t s plb) (hlen : t.text.length < lineBufSize)
    (hskip : t.Skips c) :
    writeAsciiByte c (s, plb) = .next (s, plb) ∧ Stands (t.next c) s plb := by
  have hc : ¬t.Labels c := by
    rintro ⟨rfl, -⟩
    exact absurd hskip.2 (by decide)
  refine ⟨by rw [writeAsciiByte, if_neg (h.in_range hlen), if_pos (h.skips_iff.mpr hskip)], ?_⟩
  rw [Scan.next]
  by_cases hnl : c = newline
  · rw [if_pos hnl, if_pos hskip.1]
    refine ⟨by simp, ?_, ?_, ?_, fun hmixed => ⟨(h.kept hmixed).1, rfl⟩⟩
    · rw [h.lidx, hskip.1]
      rfl
    · rw [h.plb, hskip.1]
      rfl
    · rw [h.u32]
      simp [Scan.flag]
  · rw [if_neg hnl, if_neg hc]
    have htext : ({ t with line := t.line ++ [c] } : Scan).text = [] := by
      rw [Scan.text, Scan.text_append hc, if_pos hskip]
    refine ⟨?_, ?_, ?_, ?_, fun hmixed => ⟨(h.kept hmixed).1, ?_⟩⟩
    · simpa [Ne.symm hnl] using h.line
    · rw [h.lidx, htext, hskip.1]
    · rw [h.plb, htext, hskip.1]
    · rw [h.u32, Scan.flag_append hc]
    · rw [htext]
      rfl

/-- The first colon begins the text anew. -/
theorem Stands.label (h : Stands t s plb) (hlen : t.text.length < lineBufSize)
    (hlabel : t.Labels c) (hheld : t.held = false) :
    writeAsciiByte c (s, plb) = .next ({ s with lidx := 0, u32 := 1 }, 0) ∧
      Stands (t.next c) { s with lidx := 0, u32 := 1 } 0 := by
  obtain ⟨rfl, hmem⟩ := hlabel
  have hskip : ¬t.Skips colon := fun hs => absurd hs.2 (by decide)
  constructor
  · rw [writeAsciiByte, if_neg (h.in_range hlen), if_neg (h.skips_iff.not.mpr hskip),
      if_pos ((h.labels_iff fun _ => hheld).mpr ⟨rfl, hmem⟩)]
  · rw [Scan.next, if_neg (by decide), if_pos ⟨rfl, hmem⟩]
    have htext : ({ t with line := t.line ++ [colon], ahead := 0, mixed := false } : Scan).text =
        [] := Scan.text_label (t := { t with ahead := 0, mixed := false }) hmem
    refine ⟨?_, ?_, ?_, ?_, fun _ => ⟨rfl, ?_⟩⟩
    · simpa using ⟨h.line, by decide⟩
    · rw [htext]
      rfl
    · rw [htext]
      rfl
    · simp [Scan.flag]
    · rw [htext]
      rfl

theorem take_succ_set {α : Type} {l : List α} {n : Nat} (h : n < l.length) (a : α) :
    (l.set n a).take (n + 1) = l.take n ++ [a] := by
  rw [List.take_add_one, List.take_set_of_le (Nat.le_refl n), List.getElem?_set_self h]
  rfl

/-- Any other byte is stored. -/
theorem Stands.store (h : Stands t s plb) (hlen : t.text.length < lineBufSize)
    (hskip : ¬t.Skips c) (hlabel : ¬t.Labels c) (hroom : t.ahead + t.text.length < lineBufSize)
    (hnl : c ≠ newline) :
    ∃ s', writeAsciiByte c (s, plb) = .next (s', plb + 1) ∧ Wrote s [] s' ∧
      Stands (t.next c) s' (plb + 1) := by
  obtain ⟨lineBuf, hset, hbytes⟩ := s.lineBuf.set_of_lt (i := plb) (by rw [h.plb]; exact hroom) c
  have htext : ({ t with line := t.line ++ [c] } : Scan).text = t.text ++ [c] := by
    rw [Scan.text, Scan.text_append hlabel, if_neg hskip]
  refine ⟨{ s with lineBuf, lidx := s.lidx + 1 }, ?_, Wrote.text s lineBuf (s.lidx + 1) s.u32, ?_⟩
  · rw [writeAsciiByte, if_neg (h.in_range hlen), if_neg (h.skips_iff.not.mpr hskip),
      if_neg ((h.labels_iff fun hl => absurd hl hlabel).not.mpr hlabel), hset]
    dsimp only
    rw [if_neg hnl]
  · rw [Scan.next, if_neg hnl, if_neg hlabel]
    refine ⟨?_, ?_, ?_, ?_, fun hmixed => ?_⟩
    · simpa [Ne.symm hnl] using h.line
    · rw [htext, List.length_append]
      show s.lidx + 1 = _
      rw [h.lidx]
      rfl
    · rw [htext, List.length_append, h.plb, Nat.add_assoc]
      rfl
    · rw [Scan.flag_append hlabel]
      exact h.u32
    · obtain ⟨hahead, htake⟩ := h.kept hmixed
      refine ⟨hahead, ?_⟩
      have hplb : plb = t.text.length := by
        rw [h.plb, hahead, Nat.zero_add]
      rw [htext, List.length_append, List.length_singleton]
      show lineBuf.bytes.take (t.text.length + 1) = _
      rw [hbytes, hplb, take_succ_set (by rw [s.lineBuf.size]; exact hlen), htake]

/-- The end of a line with text has it written. -/
theorem Stands.endLine (h : Stands t s plb) (hlen : t.text.length < lineBufSize)
    (hne : t.text ≠ []) (hmixed : t.mixed = false) :
    (writeAsciiByte newline (s, plb)).Writes s (textWords t.text) (Stands (t.next newline)) := by
  obtain ⟨hahead, htake⟩ := h.kept hmixed
  have hplb : plb = t.text.length := by
    rw [h.plb, hahead, Nat.zero_add]
  have hskip : ¬t.Skips newline := fun hs => hne hs.1
  have hlabel : ¬t.Labels newline := fun hl => absurd hl.1 (by decide)
  obtain ⟨lineBuf, hset, hbytes⟩ :=
    s.lineBuf.set_of_lt (i := plb) (by rw [hplb]; exact hlen) newline
  -- the buffer begins with the line
  obtain ⟨rest, hrest⟩ : ∃ rest, lineBuf.bytes = t.text ++ newline :: rest := by
    refine ⟨lineBuf.bytes.drop (t.text.length + 1), ?_⟩
    conv_lhs => rw [← List.take_append_drop (t.text.length + 1) lineBuf.bytes]
    rw [hbytes, hplb, take_succ_set (by rw [s.lineBuf.size]; exact hlen), htake,
      List.append_assoc, List.singleton_append]
  have hspec := lineWords_spec (Scan.newline_not_mem_text h.line) rest
    { s with lineBuf, lidx := s.lidx + 1 }
  rw [writeAsciiByte, if_neg (h.in_range hlen), if_neg (h.skips_iff.not.mpr hskip),
    if_neg ((h.labels_iff fun hl => absurd hl hlabel).not.mpr hlabel), hset]
  dsimp only
  rw [if_pos rfl, hrest]
  have hbefore := Wrote.text s lineBuf (s.lidx + 1) s.u32
  cases hline : lineWords (t.text ++ newline :: rest) { s with lineBuf, lidx := s.lidx + 1 } with
  | next r =>
    obtain ⟨s₁, p⟩ := r
    rw [hline] at hspec
    obtain ⟨hwrote, hp⟩ := hspec
    have hwrote := (hbefore.append hwrote).append (Wrote.text s₁ s₁.lineBuf 0 0)
    rw [List.nil_append, List.append_nil] at hwrote
    refine ⟨hwrote, ?_⟩
    rw [Scan.next, if_pos rfl, if_neg hne]
    refine ⟨by simp, rfl, ?_, rfl, fun hm => ⟨by simpa using hm, rfl⟩⟩
    show lineBufSize - p.length = dataLength t.text + 0
    have hsize := lineBuf.size
    have hle := dataLength_le t.text
    rw [hp, ← hrest, List.length_drop, hsize]
    omega
  | error r =>
    obtain ⟨s₁, p⟩ := r
    rw [hline] at hspec
    obtain ⟨front, word, rest, hwords, hwrote, hleft⟩ := hspec
    exact ⟨front, word, rest, hwords, by simpa using hbefore.append hwrote, hleft⟩
  | fault =>
    rw [hline] at hspec
    exact hspec.elim

/-- **A byte that the writer can take** leaves it where a scan of the text says. -/
theorem Stands.byte (h : Stands t s plb) (hc : t.Allows c) :
    (writeAsciiByte c (s, plb)).Writes s (t.words c) (Stands (t.next c)) := by
  obtain ⟨hlen, hkind⟩ := hc
  have hsame := Wrote.text s s.lineBuf s.lidx s.u32
  by_cases hskip : t.Skips c
  · obtain ⟨hbyte, hnext⟩ := h.skip hlen hskip
    have hwords : t.words c = [] := by
      rw [Scan.words, hskip.1]
      split <;> rfl
    rw [hbyte, hwords]
    exact ⟨hsame, hnext⟩
  · rcases hkind with hs | ⟨hlabel, hheld⟩ | ⟨hlabel, hroom, hmixed⟩
    · exact absurd hs hskip
    · obtain ⟨hbyte, hnext⟩ := h.label hlen hlabel hheld
      rw [hbyte, Scan.words, if_neg (by rw [hlabel.1]; decide)]
      exact ⟨Wrote.text s s.lineBuf 0 1, hnext⟩
    · by_cases hnl : c = newline
      · subst hnl
        rw [Scan.words, if_pos rfl]
        exact h.endLine hlen (fun hnil => hskip ⟨hnil, by decide⟩) (hmixed rfl)
      · obtain ⟨s', hbyte, hwrote, hnext⟩ := h.store hlen hskip hlabel hroom hnl
        rw [hbyte, Scan.words, if_neg hnl]
        exact ⟨hwrote, hnext⟩

end

/-! ## A stream -/

/-- The bytes of a block. -/
theorem Stands.block : ∀ (cs : List UInt8) {t : Scan} {s : Tapcp} {plb : Nat}, Stands t s plb →
    t.AllowsAll cs → (eachByte writeAsciiByte cs (s, plb)).Writes s (t.allWords cs)
      (Stands (cs.foldl Scan.next t))
  | [], _, s, _, h, _ => ⟨Wrote.text s s.lineBuf s.lidx s.u32, h⟩
  | c :: cs, t, s, plb, h, hall => by
    have hbyte := h.byte hall.1
    rw [eachByte, Scan.allWords]
    cases hstep : writeAsciiByte c (s, plb) with
    | next r =>
      rw [hstep] at hbyte
      exact (Stands.block cs hbyte.2 hall.2).after hbyte.1
    | error r =>
      rw [hstep] at hbyte
      obtain ⟨front, word, rest, hwords, hwrote⟩ := hbyte
      exact ⟨front, word, rest ++ _, by rw [hwords, List.append_assoc]; rfl, hwrote⟩
    | fault =>
      rw [hstep] at hbyte
      exact hbyte.elim

/-- The next call begins with `plb` at `lidx`. -/
theorem Stands.cut {t : Scan} {s : Tapcp} {plb : Nat} (h : Stands t s plb) :
    Stands t.cut s s.lidx.toNat where
  line := h.line
  lidx := h.lidx
  plb := by
    rw [h.lidx]
    exact (Nat.zero_add _).symm
  u32 := h.u32
  kept := fun hmixed => by
    refine ⟨rfl, ?_⟩
    show s.lineBuf.bytes.take t.text.length = t.text
    rw [Scan.cut, Bool.and_eq_false_iff, decide_eq_false_iff_not, not_not] at hmixed
    rcases hmixed with hm | hnil
    · exact (h.kept hm).2
    · rw [hnil]
      rfl

/-- The server hands over block after block until the callback fails. -/
def sendBlocks (env : Env) : List Pbuf → Tapcp → WriteOut
  | [], s => .ret s 0
  | pbuf :: pbufs, s =>
    match callWrite env s pbuf with
    | .ret s n => if n < 0 then .ret s n else sendBlocks env pbufs s
    | r => r

/-- A transfer from a state on writes words as far as they fit, and fails if they do not. -/
def WriteOut.Writes (s : Tapcp) (words : List UInt32) (r : WriteOut) : Prop :=
  ∃ s', r = .ret s' (if fitting s.nleft words = words then 0 else -1) ∧
    s'.bus = s.bus ++ wordWrites s.ptr (fitting s.nleft words)

/-- Where a block ends does not matter to the format. -/
theorem Scan.allWords_cut {t : Scan} (h : newline ∉ t.line) (cs : List UInt8) :
    t.cut.allWords cs = t.allWords cs := by
  rw [← Scan.hexWords_scan cs h, ← Scan.hexWords_scan cs (t := t.cut) h]
  rfl

/-- **Block after block**, from any state that agrees with a scan of the text before. -/
theorem Stands.blocks (env : Env) : ∀ (pbufs : List Pbuf) {t : Scan} {s₀ s : Tapcp}
    {before : List UInt32}, Wrote s₀ before s → Stands t s s.lidx.toNat →
    s.writeFn = .fpgaWordsAscii → t.Orderly (pbufs.map List.flatten) →
    (sendBlocks env pbufs s).Writes s₀ (before ++ t.allWords (pbufs.map List.flatten).flatten)
  | [], t, s₀, s, before, hbefore, _, _, _ => by
    rw [List.map_nil, List.flatten_nil, Scan.allWords, List.append_nil]
    refine ⟨s, ?_, ?_⟩
    · rw [sendBlocks, hbefore.fitting_eq, if_pos rfl]
    · rw [hbefore.fitting_eq, hbefore.bus]
  | pbuf :: pbufs, t, s₀, s, before, hbefore, h, hfn, hord => by
    obtain ⟨hall, hrest⟩ := hord
    have hblock := h.block pbuf.flatten hall
    rw [List.map_cons, List.flatten_cons, Scan.allWords_append, sendBlocks, callWrite, hfn]
    dsimp only
    rw [writeFpgaWordsAscii, walkPbuf_flatten]
    cases hcall : eachByte writeAsciiByte pbuf.flatten (s, s.lidx.toNat) with
    | next r =>
      obtain ⟨s₁, plb⟩ := r
      rw [hcall] at hblock
      obtain ⟨hwrote, h₁⟩ := hblock
      have ih := Stands.blocks env pbufs (hbefore.append hwrote) h₁.cut
        (hwrote.writeFn.trans hfn) hrest
      rw [Scan.allWords_cut h₁.line, List.append_assoc] at ih
      exact ih
    | error r =>
      obtain ⟨s₁, plb⟩ := r
      rw [hcall] at hblock
      obtain ⟨front, word, rest, hwords, hwrote, hpos, hlt⟩ := hblock
      have hwrote := hbefore.append hwrote
      rw [hwords, ← List.append_assoc, ← List.append_assoc, List.append_assoc (before ++ front)]
      refine ⟨s₁, ?_, ?_⟩
      · rw [hwrote.fitting_append hpos hlt, if_neg (by simp)]
        rfl
      · rw [hwrote.fitting_append hpos hlt, hwrote.bus]
    | fault =>
      rw [hcall] at hblock
      exact hblock.elim

/-- A file just opened has no unfinished line. -/
def Fresh (s : Tapcp) : Prop := s.writeFn = .fpgaWordsAscii → s.lidx = 0 ∧ s.u32 = 0

theorem openWords_fresh {s : Tapcp} (hw : s.writeFn = .error) : Fresh (openWords s) := by
  unfold openWords
  intro hfn
  split at hfn
  · split at hfn
    · exact absurd (hw.symm.trans hfn) (by decide)
    · exact absurd (hw.symm.trans hfn) (by decide)
  · split at hfn
    · cases hfn
    · next hwrite hbinary =>
      rw [if_neg hwrite, if_neg hbinary]
      exact ⟨rfl, rfl⟩

theorem Fresh.of_ne {s : Tapcp} (h : s.writeFn ≠ .fpgaWordsAscii) : Fresh s :=
  fun hfn => absurd hfn h

/-- An opened file has no unfinished line. -/
theorem tftpOpen_fresh {env : Env} {s s₀ : Tapcp} {fname mode : List UInt8}
    (h : tftpOpen env s fname mode true = some (s₀, true)) : Fresh s₀ := by
  unfold tftpOpen at h
  dsimp only at h
  rw [if_neg (by simp), if_neg (by simp), if_neg (by simp)] at h
  split at h
  · next hfpga =>
    rcases hreq : memRequest true fname with ⟨off, len⟩
    obtain ⟨rfl, -⟩ := openMem_ok hfpga hreq (Option.some.inj h)
    exact openWords_fresh rfl
  · rw [if_neg (by simp)] at h
    split at h
    · cases h
      exact .of_ne fun hfn => WriteFn.noConfusion hfn
    · split at h
      · refine .of_ne fun hfn => ?_
        rw [(openFlash_write rfl (Option.some.inj h)).2.2] at hfn
        cases hfn
      · split at h
        · cases h
        · obtain ⟨ptr, info, hdev⟩ := openDev_found env h
          rcases hreq : devRequest true fname info.length with ⟨off, n⟩
          obtain ⟨rfl, -⟩ := openDev_ok env hdev hreq h
          exact openWords_fresh rfl

/--
**The words written are those of the format**, for every file opened for a netascii write and every
stream, however it is cut, that the writer can take.
-/
theorem sendBlocks_hexWords {env : Env} {s s₀ : Tapcp} {fname mode : List UInt8}
    (hopen : tftpOpen env s fname mode true = some (s₀, true))
    (hfn : s₀.writeFn = .fpgaWordsAscii) {pbufs : List Pbuf}
    (hord : Scan.start.Orderly (pbufs.map List.flatten)) :
    (sendBlocks env pbufs s₀).Writes s₀ (hexWords (pbufs.map List.flatten).flatten) := by
  obtain ⟨hlidx, hu32⟩ := tftpOpen_fresh hopen hfn
  have hstart : Stands Scan.start s₀ s₀.lidx.toNat := by
    refine ⟨by decide, hlidx, ?_, hu32, fun _ => ⟨rfl, rfl⟩⟩
    rw [hlidx]
    rfl
  have hnil := Wrote.text s₀ s₀.lineBuf s₀.lidx s₀.u32
  have hwrites := Stands.blocks env pbufs hnil hstart hfn hord
  rwa [List.nil_append, ← Scan.hexWords_scan _ (t := Scan.start) (by decide)] at hwrites

/-- What a transfer has written, and what it returns. -/
def WriteOut.outcome : WriteOut → Option (List Access × Int)
  | .ret s n => some (s.bus, n)
  | _ => none

/-- A blank line, a line cut in two, and one that a block boundary separates from the next. -/
theorem sendBlocks_hexWords_cut : ∃ s₀,
    tftpOpen Env.zero Tapcp.zero (ascii "/fpga.0") (ascii "netascii") true = some (s₀, true) ∧
    (sendBlocks Env.zero
      [[ascii "0: 12 3"], [ascii "4\n\n", ascii "1:5;\n"], [ascii "6\n"]] s₀).Writes s₀
        (hexWords (ascii "0: 12 34\n\n1:5;\n6\n")) := by
  have hok : (tftpOpen Env.zero Tapcp.zero (ascii "/fpga.0") (ascii "netascii") true).map
      (fun r => (r.2, r.1.writeFn)) = some (true, .fpgaWordsAscii) := by
    decide +kernel
  obtain ⟨⟨s₀, b⟩, hopen, hb⟩ := Option.map_eq_some_iff.mp hok
  rw [Prod.mk.injEq] at hb
  obtain ⟨rfl, hfn⟩ := hb
  exact ⟨s₀, hopen, sendBlocks_hexWords hopen hfn (by decide +kernel)⟩

/-- `1` and `2` on two lines of one block. -/
theorem sendBlocks_twoLines : ∃ s₀,
    tftpOpen Env.zero Tapcp.zero (ascii "/fpga.0") (ascii "netascii") true = some (s₀, true) ∧
    s₀.writeFn = .fpgaWordsAscii ∧ hexWords (ascii "1\n2\n") = [1, 2] ∧
    ¬(sendBlocks Env.zero [[ascii "1\n2\n"]] s₀).Writes s₀ (hexWords (ascii "1\n2\n")) := by
  have hrun : (tftpOpen Env.zero Tapcp.zero (ascii "/fpga.0") (ascii "netascii") true).map
      (fun r => ((r.2, r.1.writeFn, r.1.bus), (r.1.ptr, r.1.nleft),
        (sendBlocks Env.zero [[ascii "1\n2\n"]] r.1).outcome)) =
      some ((true, .fpgaWordsAscii, []), (fpgaBaseaddr, 0x100000),
        some ([.write fpgaBaseaddr 1, .write (fpgaBaseaddr + 4) 0x12], 0)) := by
    decide +kernel
  have hwords : hexWords (ascii "1\n2\n") = [1, 2] := by decide +kernel
  obtain ⟨⟨s₀, b⟩, hopen, hb⟩ := Option.map_eq_some_iff.mp hrun
  simp only [Prod.mk.injEq] at hb
  obtain ⟨⟨rfl, hfn, hbus⟩, ⟨hptr, hleft⟩, hout⟩ := hb
  refine ⟨s₀, hopen, hfn, hwords, ?_⟩
  rintro ⟨s', hret, hbus'⟩
  rw [hret, hwords, WriteOut.outcome, hbus', hbus, hptr, hleft] at hout
  exact absurd hout (by decide +kernel)

end MlibDevel.Jam
