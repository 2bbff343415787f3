import MlibDevel.Jam.HexLines

/-!
# Sending a hex dump back

The text of a netascii read is valid input for a netascii write.  Every line of it has a label, so
the writer can take it however it is cut (`orderly_of_labelled`), and its words are those dumped
(`hexWords_dump`).
-/

namespace MlibDevel.Jam

open Lib

/-! ## Labelled lines -/

/-- A line with a label and text behind it that is not too long to follow another one. -/
structure Labelled (l : List UInt8) : Prop where
  ends : ∃ body, l = body ++ [newline] ∧ newline ∉ body ∧ colon ∈ body ∧
    (lineText body).dropWhile isspace ≠ []
  short : l.length < 140

namespace Scan

/-- The scan is somewhere in a stream of labelled lines, of which `rest` is to come. -/
structure Inside (t : Scan) (rest : List UInt8) : Prop where
  stream : ∃ lines : List (List UInt8), (∀ l ∈ lines, Labelled l) ∧ t.line ++ rest = lines.flatten
  line : newline ∉ t.line
  held : t.held = false
  ahead : t.ahead < 140
  mixed : colon ∈ t.line → t.mixed = false

theorem length_text_le (t : Scan) : t.text.length ≤ t.line.length := by
  have hdrop : t.text.length ≤ (lineText t.line).length := (List.dropWhile_suffix _).length_le
  have hline : (lineText t.line).length ≤ t.line.length := by
    unfold lineText
    split
    · rw [List.length_tail]
      have := (List.dropWhile_suffix (p := (· ≠ colon)) (l := t.line)).length_le
      omega
    · exact Nat.le_refl _
  omega

/-- Where a line ends, if a byte of it and no newline has been read. -/
theorem split_line : ∀ {line body : List UInt8} {c : UInt8} {rest z : List UInt8},
    newline ∉ line → newline ∉ body → line ++ c :: rest = body ++ newline :: z →
    ∃ cur, line ++ c :: cur = body ++ [newline] ∧ rest = cur ++ z
  | [], [], c, rest, z, _, _, h => by
    obtain ⟨rfl, rfl⟩ := List.cons.inj h
    exact ⟨[], rfl, rfl⟩
  | [], b :: body, c, rest, z, _, _, h => by
    obtain ⟨rfl, rfl⟩ := List.cons.inj h
    exact ⟨body ++ [newline], rfl, by rw [List.append_assoc]; rfl⟩
  | x :: line, [], c, rest, z, hline, _, h => by
    obtain ⟨rfl, -⟩ := List.cons.inj h
    exact absurd List.mem_cons_self hline
  | x :: line, b :: body, c, rest, z, hline, hbody, h => by
    rw [List.cons_append, List.cons_append] at h
    obtain ⟨rfl, htail⟩ := List.cons.inj h
    obtain ⟨cur, hcur, rfl⟩ := split_line (fun hm => hline (List.mem_cons_of_mem _ hm))
      (fun hm => hbody (List.mem_cons_of_mem _ hm)) htail
    exact ⟨cur, by rw [List.cons_append, List.cons_append, hcur], rfl⟩

/-- The line that a byte of the stream belongs to. -/
theorem Inside.line_of {t : Scan} {c : UInt8} {rest : List UInt8} (h : t.Inside (c :: rest)) :
    ∃ cur lines, Labelled (t.line ++ c :: cur) ∧ (∀ l ∈ lines, Labelled l) ∧
      rest = cur ++ List.flatten lines := by
  obtain ⟨lines, hall, heq⟩ := h.stream
  cases lines with
  | nil =>
    rw [List.flatten_nil] at heq
    exact absurd heq (by simp)
  | cons l lines =>
    have hl := hall l List.mem_cons_self
    obtain ⟨body, rfl, hbody, -⟩ := hl.ends
    rw [List.flatten_cons, List.append_assoc, List.singleton_append] at heq
    obtain ⟨cur, hcur, hrest⟩ := split_line h.line hbody heq
    exact ⟨cur, lines, by rwa [hcur], fun l hl => hall l (List.mem_cons_of_mem _ hl), hrest⟩

/-- At its newline a labelled line is complete. -/
theorem labelled_newline {line cur : List UInt8} (h : Labelled (line ++ newline :: cur)) :
    cur = [] ∧ colon ∈ line ∧ (lineText line).dropWhile isspace ≠ [] := by
  obtain ⟨body, heq, hbody, hcolon, htext⟩ := h.ends
  rcases List.eq_nil_or_concat cur with rfl | ⟨cs, x, rfl⟩
  · obtain ⟨rfl, -⟩ := List.append_inj' heq rfl
    exact ⟨rfl, hcolon, htext⟩
  · have hcons : line ++ newline :: cs.concat x = (line ++ newline :: cs) ++ [x] := by simp
    rw [hcons] at heq
    obtain ⟨rfl, -⟩ := List.append_inj' heq rfl
    exact absurd (List.mem_append_right line List.mem_cons_self) hbody

/-- **A byte of a stream of labelled lines** is one that the writer can take. -/
theorem Inside.byte {t : Scan} {c : UInt8} {rest : List UInt8} (h : t.Inside (c :: rest)) :
    t.Allows c ∧ (t.next c).Inside rest := by
  obtain ⟨cur, lines, hline, hall, rfl⟩ := h.line_of
  have hshort := hline.short
  rw [List.length_append, List.length_cons] at hshort
  have htext := length_text_le t
  have hahead := h.ahead
  constructor
  · refine ⟨by unfold lineBufSize; omega, ?_⟩
    by_cases hlabel : t.Labels c
    · exact Or.inr (Or.inl ⟨hlabel, h.held⟩)
    · refine Or.inr (Or.inr ⟨hlabel, by unfold lineBufSize; omega, ?_⟩)
      rintro rfl
      exact h.mixed (labelled_newline hline).2.1
  · unfold next
    by_cases hnl : c = newline
    · subst hnl
      obtain ⟨rfl, hcolon, hne⟩ := labelled_newline hline
      have hdata := dataLength_le t.text
      have hne' : t.text ≠ [] := hne
      rw [if_pos rfl, if_neg hne']
      refine ⟨⟨lines, hall, rfl⟩, by simp, rfl, ?_, by simp⟩
      show dataLength t.text < 140
      omega
    · have hstream : ∃ ls : List (List UInt8), (∀ l ∈ ls, Labelled l) ∧
          t.line ++ [c] ++ (cur ++ lines.flatten) = ls.flatten := by
        refine ⟨(t.line ++ c :: cur) :: lines, ?_, by simp⟩
        intro l hl
        rcases List.mem_cons.mp hl with rfl | hl
        · exact hline
        · exact hall l hl
      have hmem : newline ∉ t.line ++ [c] := by
        rw [List.mem_append, List.mem_singleton]
        rintro (hm | hm)
        · exact h.line hm
        · exact hnl hm.symm
      rw [if_neg hnl]
      by_cases hlabel : t.Labels c
      · rw [if_pos hlabel]
        exact ⟨hstream, hmem, h.held, Nat.succ_pos _, fun _ => rfl⟩
      · rw [if_neg hlabel]
        exact ⟨hstream, hmem, h.held, h.ahead, fun hc => h.mixed ((colon_mem_append hlabel).mp hc)⟩

/-- The bytes of a block. -/
theorem Inside.block : ∀ (b : List UInt8) {t : Scan} {rest : List UInt8}, t.Inside (b ++ rest) →
    t.AllowsAll b ∧ (b.foldl next t).Inside rest
  | [], _, _, h => ⟨trivial, h⟩
  | c :: b, t, rest, h => by
    obtain ⟨hc, hnext⟩ := h.byte
    obtain ⟨hb, hrest⟩ := Inside.block b hnext
    exact ⟨⟨hc, hb⟩, hrest⟩

theorem Inside.cut {t : Scan} {rest : List UInt8} (h : t.Inside rest) : t.cut.Inside rest where
  stream := h.stream
  line := h.line
  held := h.held
  ahead := Nat.succ_pos _
  mixed := by
    intro hc
    unfold Scan.cut
    rw [h.mixed hc, Bool.false_and]

theorem Inside.orderly : ∀ (bs : List (List UInt8)) {t : Scan}, t.Inside bs.flatten → t.Orderly bs
  | [], _, _ => trivial
  | b :: bs, t, h => by
    obtain ⟨hb, hrest⟩ := Inside.block b h
    exact ⟨hb, Inside.orderly bs hrest.cut⟩

end Scan

/-- **Labelled lines can be cut anywhere.** -/
theorem orderly_of_labelled {lines : List (List UInt8)} (h : ∀ l ∈ lines, Labelled l)
    {bs : List (List UInt8)} (hbs : bs.flatten = lines.flatten) : Scan.start.Orderly bs :=
  Scan.Inside.orderly bs
    ⟨⟨lines, h, by rw [hbs]; rfl⟩, by decide, rfl, by decide, fun _ => rfl⟩

/-! ## The words of a dump -/

/-- The digits of a byte, read on from a number. -/
theorem foldl_u8ToHex (u8 : UInt8) (n : Nat) :
    (u8ToHex u8 0x11).foldl (fun n c => 16 * n + digitValue c) n = 256 * n + u8.toNat := by
  have hdigits : ∃ a b, u8ToHex u8 0x11 = [a, b] ∧ 16 * digitValue a + digitValue b = u8.toNat := by
    have hcheck := forall_byte (P := fun u => ((u8ToHex u 0x11).length = 2) ∧
      16 * digitValue ((u8ToHex u 0x11).headD 0) + digitValue ((u8ToHex u 0x11).getLastD 0) =
        u.toNat) (by decide +kernel) u8
    match hd : u8ToHex u8 0x11, hcheck with
    | [a, b], hcheck => exact ⟨a, b, rfl, hcheck.2⟩
  obtain ⟨a, b, heq, hval⟩ := hdigits
  rw [heq]
  show 16 * (16 * n + digitValue a) + digitValue b = _
  omega

/-- The digits of a word stand for it. -/
theorem hexNumber_u32ToHex (w : UInt32) : hexNumber (u32ToHex w 1) = w.toNat := by
  have hw := w.toNat_lt
  rw [hexNumber, u32ToHex, u32ToHexLoop_zeros _ (by decide)]
  simp only [List.flatMap_cons, List.flatMap_nil, List.append_nil, List.foldl_append,
    foldl_u8ToHex, UInt32.toNat_toUInt8, UInt32.toNat_shiftRight]
  have h24 : (24 : UInt32).toNat % 32 = 24 := rfl
  have h16 : (16 : UInt32).toNat % 32 = 16 := rfl
  have h8 : (8 : UInt32).toNat % 32 = 8 := rfl
  rw [h24, h16, h8]
  simp only [Nat.shiftRight_eq_div_pow]
  omega

/-- What follows a word in a dump line is not a digit. -/
theorem isWord_u32ToHex (w : UInt32) {t : List UInt8} (ht : isxdigit (deref t) = false) :
    IsWord (u32ToHex w 1) t := by
  obtain ⟨hlen, hdig⟩ := u32ToHex_zeros w
  refine ⟨?_, hdig, Nat.le_of_eq hlen, Or.inr ht⟩
  intro hnil
  rw [hnil] at hlen
  cases hlen

theorem textWords_wordText (ws : List UInt32) : textWords (wordText ws) = ws := by
  have htail : ∀ ws : List UInt32,
      textWords (ws.flatMap fun w => 0x20 :: u32ToHex w 1) = ws ∧
        isxdigit (deref (ws.flatMap fun w => 0x20 :: u32ToHex w 1)) = false := by
    intro ws
    induction ws with
    | nil => exact ⟨rfl, rfl⟩
    | cons w ws ih =>
      refine ⟨?_, rfl⟩
      rw [List.flatMap_cons, List.cons_append, textWords_space rfl,
        (isWord_u32ToHex w ih.2).textWords_eq, ih.1, hexNumber_u32ToHex, UInt32.ofNat_toNat]
  cases ws with
  | nil => rfl
  | cons w ws =>
    rw [wordText, (isWord_u32ToHex w (htail ws).2).textWords_eq, (htail ws).1, hexNumber_u32ToHex,
      UInt32.ofNat_toNat]

/-- The text of a dump line is what follows its label. -/
theorem lineText_dumpLabel (label : UInt32) (text : List UInt8) :
    lineText (dumpLabel label ++ text) = 0x20 :: text := by
  have hdig := (u32ToHex_zeros label).2
  have hne : ∀ c ∈ u32ToHex label 1, decide (c ≠ colon) = true := by
    intro c hc
    rw [decide_eq_true_eq]
    rintro rfl
    exact absurd (hdig colon hc) (by decide)
  have hcolon : colon ∈ dumpLabel label ++ text := by
    unfold dumpLabel
    simp
  rw [lineText, if_pos hcolon, dumpLabel, List.append_assoc, List.dropWhile_append_of_pos hne]
  rfl

theorem dumpLabel_newline (label : UInt32) (ws : List UInt32) :
    newline ∉ dumpLabel label ++ wordText ws := by
  intro hm
  rcases List.mem_append.mp hm with hm | hm
  · exact dumpChar_ne_newline ((dumpLabel_spec label).2 _ hm) rfl
  · exact dumpChar_ne_newline ((wordText_spec ws).2 _ hm) rfl

/-- **The words of a dump are the words dumped.** -/
theorem hexWords_dump (label : UInt32) (ws : List UInt32) :
    hexWords (dumpLines 4 wordText label ws).flatten = ws := by
  induction label, ws using dumpLines.induct 4 with
  | case1 label =>
    rw [dumpLines]
    rfl
  | case2 label w ws ih =>
    rw [dumpLines, List.flatten_cons, List.append_assoc, List.singleton_append,
      hexWords_line (dumpLabel_newline label _), lineText_dumpLabel, textWords_space rfl,
      textWords_wordText, ih, List.cons_append, List.take_append_drop]

/-- Its lines are labelled. -/
theorem dumpLines_labelled (label : UInt32) (ws : List UInt32) :
    ∀ l ∈ dumpLines 4 wordText label ws, Labelled l := by
  induction label, ws using dumpLines.induct 4 with
  | case1 label =>
    rw [dumpLines]
    simp
  | case2 label w ws ih =>
    rw [dumpLines]
    intro l hl
    rcases List.mem_cons.mp hl with rfl | hl
    · refine ⟨⟨_, rfl, dumpLabel_newline label _, ?_, ?_⟩, ?_⟩
      · unfold dumpLabel
        simp
      · rw [lineText_dumpLabel, List.dropWhile_cons_of_pos rfl]
        intro hnil
        have hwords := textWords_dropWhile (wordText (w :: ws.take (4 - 1)))
        rw [hnil, textWords_wordText] at hwords
        cases hwords
      · have hlen := (wordText_spec (w :: ws.take (4 - 1))).1
        have htake := List.length_take_le (4 - 1) ws
        rw [List.length_cons] at hlen
        rw [List.length_append, List.length_append, (dumpLabel_spec label).1]
        simp only [List.length_singleton]
        omega
    · exact ih l hl

/--
**A hex dump sent back is written as it was read.**

The dump of any words, as `casper_tapcp_read_fpga_words_ascii` formats it, is sent to a file opened
for a netascii write that has room for them.  However the text is cut into blocks and these into
buffers, the words are written in order to consecutive addresses, and no call fails.
-/
theorem sendBlocks_dump {env : Env} {s s₀ : Tapcp} {fname mode : List UInt8}
    (hopen : tftpOpen env s fname mode true = some (s₀, true))
    (hfn : s₀.writeFn = .fpgaWordsAscii) {label : UInt32} {ws : List UInt32}
    (hroom : s₀.nleft < 0 ∨ 4 * (ws.length : Int) ≤ s₀.nleft) {pbufs : List Pbuf}
    (hcut : (pbufs.map List.flatten).flatten = (dumpLines 4 wordText label ws).flatten) :
    ∃ s', sendBlocks env pbufs s₀ = .ret s' 0 ∧ s'.bus = s₀.bus ++ wordWrites s₀.ptr ws := by
  have hord := orderly_of_labelled (dumpLines_labelled label ws) hcut
  obtain ⟨s', hret, hbus⟩ := sendBlocks_hexWords hopen hfn hord
  rw [hcut, hexWords_dump] at hret hbus
  have hfit : fitting s₀.nleft ws = ws := by
    unfold fitting
    split
    · exact List.take_of_length_le (by omega)
    · rfl
  rw [hfit] at hret hbus
  rw [if_pos rfl] at hret
  exact ⟨s', hret, hbus⟩

/-- Five words, cut inside a label, a word and before a newline. -/
theorem sendBlocks_dump_fiveWords : ∃ s₀ s',
    tftpOpen Env.zero Tapcp.zero (ascii "/fpga.0") (ascii "netascii") true = some (s₀, true) ∧
    sendBlocks Env.zero
      [[ascii "0000", ascii "0000: 00000001 000"], [ascii "00002 00000003 00000004"],
        [ascii "\n00000010: DEADBEEF\n"]] s₀ = .ret s' 0 ∧
    s'.bus = s₀.bus ++ wordWrites s₀.ptr [1, 2, 3, 4, 0xdeadbeef] := by
  have hok : (tftpOpen Env.zero Tapcp.zero (ascii "/fpga.0") (ascii "netascii") true).map
      (fun r => (r.2, r.1.writeFn, r.1.nleft)) = some (true, .fpgaWordsAscii, 0x100000) := by
    decide +kernel
  obtain ⟨⟨s₀, b⟩, hopen, hb⟩ := Option.map_eq_some_iff.mp hok
  simp only [Prod.mk.injEq] at hb
  obtain ⟨rfl, hfn, hleft⟩ := hb
  have hcut : (List.map List.flatten
      [[ascii "0000", ascii "0000: 00000001 000"], [ascii "00002 00000003 00000004"],
        [ascii "\n00000010: DEADBEEF\n"]]).flatten =
      (dumpLines 4 wordText 0 [1, 2, 3, 4, 0xdeadbeef]).flatten := by
    decide +kernel
  obtain ⟨s', hret, hbus⟩ := sendBlocks_dump hopen hfn (Or.inr (by rw [hleft]; decide)) hcut
  exact ⟨s₀, s', hopen, hret, hbus⟩

end MlibDevel.Jam
