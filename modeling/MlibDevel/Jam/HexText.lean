import MlibDevel.Jam.TapcpWrite
import MlibDevel.Lib.Chunks

/-!
# The text of a netascii write

The comment "Write Formats" of `casper_tapcp.c` says which words a hexdump stands for.  `hexWords`
states it: a stream is cut into lines, of a line counts what follows its first colon, of that the
part before the first character that is neither white space nor a hex digit, and there every group
of digits is cut into words of eight.

`lineWords_spec` connects it with the code: a line that stands at the beginning of `line_buf` is
written word by word as the format says, as far as the count of bytes left allows.
-/

namespace MlibDevel.Jam

open Lib

/-! ## The format -/

/-- The value of a hex digit. -/
def digitValue (c : UInt8) : Nat :=
  if c.toNat ≤ 0x39 then c.toNat - 0x30
  else if c.toNat ≤ 0x46 then c.toNat - 0x41 + 10
  else c.toNat - 0x61 + 10

/-- The number that hex digits stand for. -/
def hexNumber (ds : List UInt8) : Nat := ds.foldl (fun n c => 16 * n + digitValue c) 0

/-- A group of digits is a concatenation of values of eight digits; the last may have fewer. -/
def groupWords (ds : List UInt8) : List UInt32 :=
  (chunks 8 ds).map fun ds => UInt32.ofNat (hexNumber ds)

/-- The characters that do not end the data of a line. -/
def isData (c : UInt8) : Bool := isspace c || isxdigit c

/-- The words of the text of a line: white space separates groups of digits. -/
def textWords (text : List UInt8) : List UInt32 :=
  ((text.takeWhile isData).splitOnP isspace).flatMap groupWords

instance decidableLabelled (line : List UInt8) : Decidable (colon ∈ line) := inferInstance

/-- The text of a line: what follows its label, if it has one. -/
def lineText (line : List UInt8) : List UInt8 :=
  if colon ∈ line then (line.dropWhile (· ≠ colon)).tail else line

/-- The lines of a stream that are terminated. -/
def terminatedLines (stream : List UInt8) : List (List UInt8) := (stream.splitOn newline).dropLast

/-- The words of a stream. -/
def hexWords (stream : List UInt8) : List UInt32 :=
  (terminatedLines stream).flatMap fun line => textWords (lineText line)

-- the example of the comment
example : hexWords (ascii "label: 00 11 22 33\n\n00000000000000110000002233 # ...\n") =
    [0, 0x11, 0x22, 0x33, 0, 0x11, 0x22, 0x33] := by decide +kernel

/-- The lines of a stream are taken one by one. -/
theorem hexWords_line {line : List UInt8} (h : newline ∉ line) (rest : List UInt8) :
    hexWords (line ++ newline :: rest) = textWords (lineText line) ++ hexWords rest := by
  rw [hexWords, terminatedLines, List.splitOn_append_cons_self_of_not_mem h,
    List.dropLast_cons_of_ne_nil (List.splitOn_ne_nil _ _), List.flatMap_cons]
  rfl

/-- A line without an end has no words yet. -/
theorem hexWords_unterminated {line : List UInt8} (h : newline ∉ line) : hexWords line = [] := by
  rw [hexWords, terminatedLines, List.splitOn_eq_singleton h]
  rfl

/-! ## Groups of digits -/

theorem isspace_of_isxdigit {c : UInt8} : isxdigit c = true → isspace c = false :=
  forall_byte (P := fun c => isxdigit c = true → isspace c = false) (by decide +kernel) c

theorem toNat_xdigitValue {c : UInt8} :
    isxdigit c = true → (xdigitValue c).toNat = digitValue c ∧ digitValue c < 16 :=
  forall_byte (P := fun c => isxdigit c = true →
    (xdigitValue c).toNat = digitValue c ∧ digitValue c < 16) (by decide +kernel) c

/-- Shifting in a digit. -/
theorem shift_or_digit (v d : UInt32) (hd : d.toNat < 16) :
    (v <<< 4) ||| d = UInt32.ofNat (16 * v.toNat + d.toNat) :=
  shiftLeft_or v d (by decide) hd

/-- The loop of `hex_to_u32` over digits: it ends after them or when it has eight. -/
theorem hexLoop_digits {t : List UInt8} : ∀ {n : Nat} (ds : List UInt8) (v : Nat),
    (∀ c ∈ ds, isxdigit c = true) → ds.length ≤ n → (ds.length = n ∨ isxdigit (deref t) = false) →
    hexLoop n (ds ++ t) (UInt32.ofNat v) =
      (UInt32.ofNat (ds.foldl (fun n c => 16 * n + digitValue c) v), t)
  | 0, [], _, _, _, _ => rfl
  | n + 1, [], _, _, _, hend => by
    rw [List.nil_append, hexLoop, if_pos (by simpa using hend)]
    rfl
  | n + 1, c :: ds, v, hds, hle, hend => by
    obtain ⟨hval, hlt⟩ := toNat_xdigitValue (hds c List.mem_cons_self)
    have hstep : ((UInt32.ofNat v <<< 4) ||| xdigitValue c) =
        UInt32.ofNat (16 * v + digitValue c) := by
      rw [shift_or_digit _ _ (by omega), hval]
      apply UInt32.toNat_inj.mp
      simp only [UInt32.toNat_ofNat']
      omega
    rw [List.cons_append, hexLoop, deref_cons, hds c List.mem_cons_self, if_neg (by decide),
      List.tail_cons, hstep]
    simp only [List.length_cons] at hle hend
    exact hexLoop_digits ds _ (fun d hd => hds d (List.mem_cons_of_mem _ hd)) (by omega)
      (hend.imp (by omega) id)

/-- Digits that make up one word: eight of them, or all up to the end of the group. -/
structure IsWord (ds t : List UInt8) : Prop where
  ne_nil : ds ≠ []
  digits : ∀ c ∈ ds, isxdigit c = true
  le : ds.length ≤ 8
  full : ds.length = 8 ∨ isxdigit (deref t) = false

/-- `hex_to_u32` reads a word. -/
theorem IsWord.hexToU32_eq {ds t : List UInt8} (h : IsWord ds t) (u32 : UInt32) :
    hexToU32 (ds ++ t) u32 = (UInt32.ofNat (hexNumber ds), t) := by
  have hne : deref (ds ++ t) ≠ 0 := by
    match ds, h.ne_nil, h.digits with
    | c :: ds, _, hds =>
      intro hz
      have hc := hds c List.mem_cons_self
      rw [List.cons_append, deref_cons] at hz
      rw [hz] at hc
      exact absurd hc (by decide)
  rw [hexToU32, if_pos hne]
  exact hexLoop_digits ds 0 h.digits h.le h.full

/-- The end of the line ends a word. -/
theorem IsWord.append_newline {ds t : List UInt8} (h : IsWord ds t) (rest : List UInt8) :
    IsWord ds (t ++ newline :: rest) where
  ne_nil := h.ne_nil
  digits := h.digits
  le := h.le
  full := by
    refine h.full.imp id fun ht => ?_
    cases t with
    | nil => rfl
    | cons c t => exact ht

/-- At most `n` digits, and no fewer than there are. -/
theorem exists_digits : ∀ (n : Nat) (t : List UInt8), ∃ ds t', t = ds ++ t' ∧
    (∀ c ∈ ds, isxdigit c = true) ∧ ds.length ≤ n ∧ (ds.length = n ∨ isxdigit (deref t') = false)
  | 0, t => ⟨[], t, rfl, by simp, Nat.le_refl 0, Or.inl rfl⟩
  | n + 1, [] => ⟨[], [], rfl, by simp, Nat.zero_le _, Or.inr (by decide)⟩
  | n + 1, c :: t => by
    by_cases hc : isxdigit c = true
    · obtain ⟨ds, t', rfl, hds, hle, hend⟩ := exists_digits n t
      refine ⟨c :: ds, t', rfl, ?_, Nat.succ_le_succ hle, hend.imp (congrArg (· + 1)) id⟩
      rintro d (_ | ⟨_, hd⟩)
      · exact hc
      · exact hds d hd
    · exact ⟨[], c :: t, rfl, by simp, Nat.zero_le _, Or.inr (by simpa using hc)⟩

/-- At a digit a word begins. -/
theorem exists_isWord {c : UInt8} (hc : isxdigit c = true) (t : List UInt8) :
    ∃ ds t', c :: t = ds ++ t' ∧ IsWord ds t' := by
  obtain ⟨ds, t', heq, hds, hle, hend⟩ := exists_digits 8 (c :: t)
  refine ⟨ds, t', heq, ?_, hds, hle, hend⟩
  rintro rfl
  rw [List.nil_append] at heq
  rw [← heq, deref_cons, hc] at hend
  simp at hend

/-! ## The words of a text -/

theorem splitOnP_append_of_not {α : Type} {p : α → Bool} : ∀ {ds : List α} (t : List α),
    (∀ c ∈ ds, p c = false) → (ds ++ t).splitOnP p = (t.splitOnP p).modifyHead (ds ++ ·)
  | [], t, _ => by
    rw [List.nil_append]
    cases t.splitOnP p <;> rfl
  | c :: ds, t, h => by
    rw [List.cons_append, List.splitOnP_cons_eq_if_modifyHead, h c List.mem_cons_self,
      splitOnP_append_of_not t fun d hd => h d (List.mem_cons_of_mem _ hd), if_neg (by decide),
      List.modifyHead_modifyHead]
    rfl

/-- White space in front does not matter. -/
theorem textWords_space {c : UInt8} (hc : isspace c = true) (t : List UInt8) :
    textWords (c :: t) = textWords t := by
  rw [textWords, List.takeWhile_cons_of_pos (by rw [isData, hc, Bool.true_or]),
    List.splitOnP_cons_eq_if_modifyHead, if_pos hc, List.flatMap_cons, groupWords, chunks_nil]
  rfl

theorem textWords_dropWhile : ∀ t : List UInt8, textWords (t.dropWhile isspace) = textWords t
  | [] => rfl
  | c :: t => by
    by_cases hc : isspace c = true
    · rw [List.dropWhile_cons_of_pos hc, textWords_dropWhile t, textWords_space hc]
    · rw [List.dropWhile_cons_of_neg hc]

/-- The first character that is not data ends it. -/
theorem textWords_stop {c : UInt8} (hc : isData c = false) (t : List UInt8) :
    textWords (c :: t) = [] := by
  rw [textWords, List.takeWhile_cons_of_neg (by rw [hc]; decide)]
  rfl

/-- A text that does not begin with a digit begins with an empty group. -/
theorem firstGroup_nil {t g : List UInt8} {gs : List (List UInt8)}
    (ht : isxdigit (deref t) = false) (hg : (t.takeWhile isData).splitOnP isspace = g :: gs) :
    g = [] := by
  cases t with
  | nil =>
    cases hg
    rfl
  | cons c t =>
    rw [deref_cons] at ht
    by_cases hc : isspace c = true
    · rw [List.takeWhile_cons_of_pos (by rw [isData, hc, Bool.true_or]),
        List.splitOnP_cons_eq_if_modifyHead, if_pos hc] at hg
      cases hg
      rfl
    · rw [List.takeWhile_cons_of_neg (by rw [isData, ht, Bool.or_false]; exact hc)] at hg
      cases hg
      rfl

theorem IsWord.takeWhile_eq {ds t : List UInt8} (h : IsWord ds t) :
    (ds ++ t).takeWhile isData = ds ++ t.takeWhile isData :=
  List.takeWhile_append_of_pos fun c hc => by rw [isData, h.digits c hc, Bool.or_true]

/-- The first word. -/
theorem IsWord.textWords_eq {ds t : List UInt8} (h : IsWord ds t) :
    textWords (ds ++ t) = UInt32.ofNat (hexNumber ds) :: textWords t := by
  rw [textWords, h.takeWhile_eq,
    splitOnP_append_of_not _ fun c hc => isspace_of_isxdigit (h.digits c hc), textWords]
  cases hg : (t.takeWhile isData).splitOnP isspace with
  | nil => exact absurd hg (List.splitOnP_ne_nil _ _)
  | cons g gs =>
    rw [List.modifyHead_cons, List.flatMap_cons, List.flatMap_cons, ← List.cons_append]
    congr 1
    rcases h.full with hlen | hend
    · rw [groupWords, chunks_append (by decide) hlen]
      rfl
    · rw [firstGroup_nil hend hg, List.append_nil, groupWords, chunks_of_length_le h.ne_nil h.le,
        groupWords, chunks_nil]
      rfl

/-! ## Writing words -/

/-- The accesses that write words from an address on. -/
def wordWrites : UInt32 → List UInt32 → List Access
  | _, [] => []
  | addr, word :: words => .write addr word :: wordWrites (addr + 4) words

theorem wordWrites_append : ∀ (addr : UInt32) (xs ys : List UInt32),
    wordWrites addr (xs ++ ys) =
      wordWrites addr xs ++ wordWrites (addr + 4 * UInt32.ofNat xs.length) ys
  | addr, [], ys => by simp [wordWrites]
  | addr, word :: xs, ys => by
    rw [List.cons_append, wordWrites, wordWrites_append, wordWrites, List.cons_append,
      List.length_cons, UInt32.ofNat_add, UInt32.mul_add, UInt32.add_comm (4 * _),
      ← UInt32.add_assoc]
    rfl

/-- The words that the count of bytes left allows.  A negative count is no limit. -/
def fitting (nleft : Int) (words : List UInt32) : List UInt32 :=
  if 0 ≤ nleft then words.take (nleft / 4).toNat else words

/-- From one state to another words have been written, within the limit. -/
structure Wrote (s : Tapcp) (words : List UInt32) (s' : Tapcp) : Prop where
  bus : s'.bus = s.bus ++ wordWrites s.ptr words
  ptr : s'.ptr = s.ptr + 4 * UInt32.ofNat words.length
  nleft : (s.nleft < 0 ∧ s'.nleft = s.nleft) ∨
    (0 ≤ s'.nleft ∧ s'.nleft + 4 * words.length = s.nleft)
  writeFn : s'.writeFn = s.writeFn

/-- A change of the text kept writes nothing. -/
theorem Wrote.text (s : Tapcp) (lineBuf : LineBuf) (lidx : Int) (u32 : UInt32) :
    Wrote s [] { s with lineBuf, lidx, u32 } where
  bus := (List.append_nil _).symm
  ptr := by simp
  nleft := by
    show (s.nleft < 0 ∧ s.nleft = s.nleft) ∨ (0 ≤ s.nleft ∧ s.nleft + 4 * (0 : Nat) = s.nleft)
    omega
  writeFn := rfl

theorem Wrote.storeWord {s : Tapcp} (hlim : ¬(0 ≤ s.nleft ∧ s.nleft < 4)) (word : UInt32) :
    Wrote s [word] (storeWord s word) where
  bus := rfl
  ptr := rfl
  nleft := by
    show (s.nleft < 0 ∧ (if s.nleft > 0 then s.nleft - 4 else s.nleft) = s.nleft) ∨
      (0 ≤ (if s.nleft > 0 then s.nleft - 4 else s.nleft) ∧
        (if s.nleft > 0 then s.nleft - 4 else s.nleft) + 4 * (1 : Nat) = s.nleft)
    split <;> omega
  writeFn := rfl

theorem Wrote.append {s₀ s₁ s₂ : Tapcp} {xs ys : List UInt32} (h₁ : Wrote s₀ xs s₁)
    (h₂ : Wrote s₁ ys s₂) : Wrote s₀ (xs ++ ys) s₂ where
  bus := by rw [h₂.bus, h₁.bus, h₁.ptr, wordWrites_append, List.append_assoc]
  ptr := by
    rw [h₂.ptr, h₁.ptr, List.length_append, UInt32.ofNat_add, UInt32.mul_add, UInt32.add_assoc]
  nleft := by
    have := h₁.nleft
    have := h₂.nleft
    rw [List.length_append]
    omega
  writeFn := h₂.writeFn.trans h₁.writeFn

/-- What has been written fits. -/
theorem Wrote.fitting_eq {s s' : Tapcp} {words : List UInt32} (h : Wrote s words s') :
    fitting s.nleft words = words := by
  rw [fitting]
  split
  · have := h.nleft
    exact List.take_of_length_le (by omega)
  · rfl

/-- Nothing more fits. -/
theorem Wrote.fitting_append {s s' : Tapcp} {words : List UInt32} (h : Wrote s words s')
    (hpos : 0 ≤ s'.nleft) (hlt : s'.nleft < 4) (rest : List UInt32) :
    fitting s.nleft (words ++ rest) = words := by
  have hn := h.nleft
  rw [fitting, if_pos (by omega), show (s.nleft / 4).toNat = words.length by omega,
    List.take_left]

/--
Some code that is to write words: it writes them and goes on, or it writes those that fit and
fails.
-/
def Flow.Writes {α : Type} (s : Tapcp) (words : List UInt32) (Q : Tapcp → α → Prop) :
    Flow (Tapcp × α) → Prop
  | .next (s', a) => Wrote s words s' ∧ Q s' a
  | .error (s', _) => ∃ front word rest, words = front ++ word :: rest ∧
      Wrote s front s' ∧ 0 ≤ s'.nleft ∧ s'.nleft < 4
  | .fault => False

/-- Words have been written before. -/
theorem Flow.Writes.after {α : Type} {s₀ s₁ : Tapcp} {xs ys : List UInt32}
    {Q : Tapcp → α → Prop} {r : Flow (Tapcp × α)} (h₁ : Wrote s₀ xs s₁) (h : r.Writes s₁ ys Q) :
    r.Writes s₀ (xs ++ ys) Q := by
  match r, h with
  | .next _, ⟨hw, hQ⟩ => exact ⟨h₁.append hw, hQ⟩
  | .error _, ⟨front, word, rest, hys, hw, hleft⟩ =>
    exact ⟨xs ++ front, word, rest, by rw [hys, List.append_assoc], h₁.append hw, hleft⟩

/-- How much of a text is data. -/
def dataLength (text : List UInt8) : Nat := (text.takeWhile isData).length

theorem dataLength_le (text : List UInt8) : dataLength text ≤ text.length :=
  ( List.takeWhile_prefix isData).length_le

theorem dataLength_cons {c : UInt8} (hc : isData c = true) (t : List UInt8) :
    dataLength (c :: t) = dataLength t + 1 := by
  rw [dataLength, List.takeWhile_cons_of_pos hc]
  rfl

theorem dataLength_stop {c : UInt8} (hc : isData c = false) (t : List UInt8) :
    dataLength (c :: t) = 0 := by
  rw [dataLength, List.takeWhile_cons_of_neg (by rw [hc]; decide)]
  rfl

theorem IsWord.dataLength_eq {ds t : List UInt8} (h : IsWord ds t) :
    dataLength (ds ++ t) = ds.length + dataLength t := by
  rw [dataLength, h.takeWhile_eq, List.length_append]
  rfl

/-- **A line is written word by word**, and the pointer ends behind its data. -/
theorem lineWords_spec {text : List UInt8} (hnl : newline ∉ text) (rest : List UInt8) (s : Tapcp) :
    (lineWords (text ++ newline :: rest) s).Writes s (textWords text) fun _ p =>
      p = (text ++ newline :: rest).drop (dataLength text) := by
  induction hn : text.length using Nat.strong_induction_on generalizing text s with
  | _ n ih =>
    cases text with
    | nil =>
      rw [List.nil_append, lineWords, if_pos rfl]
      exact ⟨Wrote.text s s.lineBuf s.lidx s.u32, rfl⟩
    | cons c text =>
      rw [List.mem_cons, not_or] at hnl
      rw [List.cons_append, lineWords, if_neg (Ne.symm hnl.1)]
      by_cases hsp : isspace c = true
      · rw [if_pos hsp, textWords_space hsp, dataLength_cons (by rw [isData, hsp, Bool.true_or])]
        exact ih text.length (by rw [← hn]; exact Nat.lt_succ_self _) hnl.2 s rfl
      · rw [if_neg hsp]
        by_cases hx : isxdigit c = true
        · obtain ⟨ds, t, heq, hword⟩ := exists_isWord hx text
          have hcons : c :: (text ++ newline :: rest) = ds ++ (t ++ newline :: rest) := by
            rw [← List.cons_append, heq, List.append_assoc]
          have hlen : t.length < n := by
            have := List.length_pos_of_ne_nil hword.ne_nil
            rw [← hn, heq, List.length_append]
            omega
          have hnlt : newline ∉ t := fun hmem => by
            have : newline ∈ c :: text := by
              rw [heq]
              exact List.mem_append_right ds hmem
            rw [List.mem_cons] at this
            exact this.elim hnl.1 hnl.2
          rw [dif_pos hx]
          by_cases hlim : 0 ≤ s.nleft ∧ s.nleft < 4
          · rw [if_pos hlim, heq, hword.textWords_eq]
            exact ⟨[], _, _, rfl, Wrote.text s s.lineBuf s.lidx s.u32, hlim⟩
          · rw [if_neg hlim]
            dsimp only
            rw [hcons, (hword.append_newline rest).hexToU32_eq, heq, hword.textWords_eq,
              hword.dataLength_eq, ← List.singleton_append, ← List.drop_drop, List.drop_left]
            exact (ih t.length hlen hnlt _ rfl).after (Wrote.storeWord hlim _)
        · rw [dif_neg hx, textWords_stop (by simp [isData, hsp, hx]),
            dataLength_stop (by simp [isData, hsp, hx])]
          exact ⟨Wrote.text s s.lineBuf s.lidx s.u32, rfl⟩

end MlibDevel.Jam
