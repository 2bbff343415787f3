import MlibDevel.Jam.Tapcp
import MlibDevel.Lib.BlockReader

/-!
# Sending lines in blocks

`casper_tapcp_read_fpga_words_ascii` and `casper_tapcp_read_mem_bytes_ascii` build a line in
`line_buf` and hand it out over as many calls as it takes.

Their loop ends when no data is left to be read, and that is so as soon as the last line is built.
A call that is to send what is left of the last line therefore sends nothing: the reader stops after
the start of the last line (`LineSource.stopsAfter`).
-/

namespace MlibDevel.Jam

open Lib

/-! ## Lines -/

/-- A line: one newline, at its end. -/
def IsLine (l : List UInt8) : Prop := ∃ body, newline ∉ body ∧ l = body ++ [newline]

/-- What `copyLine` does where a line, or the rest of one, lies in `line_buf`. -/
theorem copyLine_body {b : LineBuf} {rest : List UInt8} : ∀ (body : List UInt8) (n lidx : Nat),
    newline ∉ body → b.bytes.drop lidx = body ++ newline :: rest →
    copyLine b lidx n =
      if n ≤ body.length then some (body.take n, lidx + n, 0)
      else some (body ++ [newline], 0, n - (body.length + 1))
  | body, 0, lidx, _, _ => by simp [copyLine]
  | [], n + 1, lidx, _, hb => by
    have hget : b.bytes[lidx]? = some newline := by
      rw [← List.head?_drop, hb]
      rfl
    simp [copyLine, hget]
  | c :: body, n + 1, lidx, hn, hb => by
    have hget : b.bytes[lidx]? = some c := by
      rw [← List.head?_drop, hb]
      rfl
    have hne : c ≠ newline := fun he => hn (he ▸ List.mem_cons_self)
    have hdrop : b.bytes.drop (lidx + 1) = body ++ newline :: rest := by
      rw [← List.tail_drop, hb]
      rfl
    rw [copyLine, hget]
    dsimp only
    rw [if_neg hne, copyLine_body body n (lidx + 1) (fun h => hn (List.mem_cons_of_mem _ h)) hdrop,
      List.length_cons]
    by_cases h : n ≤ body.length
    · rw [if_pos h, if_pos (Nat.succ_le_succ h), List.take_succ_cons]
      simp only [Option.some.injEq, Prod.mk.injEq, true_and, and_true]
      omega
    · rw [if_neg h, if_neg (fun h' => h (Nat.le_of_succ_le_succ h')), List.cons_append]
      simp only [Option.some.injEq, Prod.mk.injEq, true_and]
      omega

/-- `cur` is what is left to send of the line in `line_buf`. -/
def Pending (s : Tapcp) (cur : List UInt8) : Prop :=
  (s.lidx = 0 ∧ cur = []) ∨
  (0 < s.lidx ∧ IsLine cur ∧ ∃ rest, s.lineBuf.bytes.drop s.lidx.toNat = cur ++ rest)

/-- Copying from a line leaves what was not copied pending. -/
theorem copyLine_pending {s : Tapcp} {cur rest : List UInt8} {n : Nat} (hn : 0 < n)
    (hcur : IsLine cur) (hbuf : s.lineBuf.bytes.drop s.lidx.toNat = cur ++ rest) :
    ∃ lidx, copyLine s.lineBuf s.lidx.toNat n = some (cur.take n, lidx, n - cur.length) ∧
      Pending { s with lidx } (cur.drop n) := by
  obtain ⟨body, hbody, rfl⟩ := hcur
  rw [List.append_assoc, List.singleton_append] at hbuf
  have hcopy := copyLine_body body n s.lidx.toNat hbody hbuf
  rw [List.length_append, List.length_singleton]
  by_cases h : n ≤ body.length
  · rw [if_pos h] at hcopy
    refine ⟨s.lidx.toNat + n, ?_, Or.inr ⟨?_, ⟨body.drop n, ?_, ?_⟩, rest, ?_⟩⟩
    · rw [hcopy, List.take_append_of_le_length h, Nat.sub_eq_zero_of_le (by omega)]
    · show (0 : Int) < ((s.lidx.toNat + n : Nat) : Int)
      omega
    · exact fun hm => hbody (List.mem_of_mem_drop hm)
    · exact List.drop_append_of_le_length h
    · show s.lineBuf.bytes.drop (((s.lidx.toNat + n : Nat) : Int)).toNat = _
      rw [Int.toNat_natCast, ← List.drop_drop, hbuf, List.drop_append_of_le_length h,
        List.drop_append_of_le_length h, List.append_assoc]
      rfl
  · rw [if_neg h] at hcopy
    refine ⟨0, ?_, Or.inl ⟨rfl, ?_⟩⟩
    · rw [hcopy, List.take_of_length_le (by rw [List.length_append, List.length_singleton]; omega)]
    · exact List.drop_eq_nil_of_le (by rw [List.length_append, List.length_singleton]; omega)

/-! ## The loop over the lines -/

/--
What the loop needs to know about the lines to come: `Src s todo` says that in state `s` the lines
`todo` have not been built yet.
-/
structure LineSource (more : Tapcp → Bool) (newLine : Tapcp → Option (Tapcp × Bool))
    (Src : Tapcp → List (List UInt8) → Prop) : Prop where
  more_iff : ∀ {s todo}, Src s todo → (more s = true ↔ todo ≠ [])
  build : ∀ {s l todo}, Src s (l :: todo) → s.lidx = 0 →
    ∃ s' rest, newLine s = some (s', true) ∧ s'.lidx = 0 ∧ s'.lineBuf.bytes = l ++ rest ∧
      Src s' todo
  move : ∀ {s todo}, Src s todo → ∀ lidx, Src { s with lidx } todo
  isLine : ∀ {s todo}, Src s todo → ∀ l ∈ todo, IsLine l

section

variable {more : Tapcp → Bool} {newLine : Tapcp → Option (Tapcp × Bool)}
  {Src : Tapcp → List (List UInt8) → Prop}

theorem isLine_ne_nil {l : List UInt8} (h : IsLine l) : l ≠ [] := by
  obtain ⟨body, -, rfl⟩ := h
  simp

/-- What both kinds of line sending callbacks have: the next line is built in `line_buf`. -/
structure LineFeed (newLine : Tapcp → Option (Tapcp × Bool))
    (Src : Tapcp → List (List UInt8) → Prop) : Prop where
  build : ∀ {s l todo}, Src s (l :: todo) → s.lidx = 0 →
    ∃ s' rest, newLine s = some (s', true) ∧ s'.lidx = 0 ∧ s'.lineBuf.bytes = l ++ rest ∧
      Src s' todo
  move : ∀ {s todo}, Src s todo → ∀ lidx, Src { s with lidx } todo
  isLine : ∀ {s todo}, Src s todo → ∀ l ∈ todo, IsLine l

theorem LineSource.feed (h : LineSource more newLine Src) : LineFeed newLine Src :=
  ⟨h.build, h.move, h.isLine⟩

/-- The state between two lines or inside one, with its line in `line_buf` if there is one. -/
theorem LineFeed.current (h : LineFeed newLine Src) {s : Tapcp} {cur : List UInt8}
    {todo : List (List UInt8)} (hp : Pending s cur) (hsrc : Src s todo) (htodo : todo ≠ []) :
    ∃ s' l todo' rest, (if s.lidx = 0 then newLine s else some (s, true)) = some (s', true) ∧
      0 ≤ s'.lidx ∧ IsLine l ∧ s'.lineBuf.bytes.drop s'.lidx.toNat = l ++ rest ∧ Src s' todo' ∧
      todo' <:+ todo ∧ l ++ todo'.flatten = cur ++ todo.flatten ∧
      (todo' = [] → todo = [l]) := by
  rcases hp with ⟨hzero, rfl⟩ | ⟨hpos, hline, rest, hbuf⟩
  · obtain ⟨l, todo, rfl⟩ := List.exists_cons_of_ne_nil htodo
    obtain ⟨s', rest, hnew, hlidx, hbuf, hsrc'⟩ := h.build hsrc hzero
    refine ⟨s', l, todo, rest, ?_, ?_, ?_, ?_, hsrc', ?_, ?_, ?_⟩
    · rw [if_pos hzero, hnew]
    · rw [hlidx]
    · exact h.isLine hsrc l List.mem_cons_self
    · rw [hlidx]
      exact hbuf
    · exact List.suffix_cons l todo
    · simp
    · rintro rfl
      rfl
  · refine ⟨s, cur, todo, rest, ?_, by omega, hline, hbuf, hsrc, List.suffix_refl _, rfl, ?_⟩
    · rw [if_neg (by omega)]
    · exact fun he => absurd he htodo

variable (more) in
/-- A round of the loop: bytes are copied from the line, and the loop goes on behind them. -/
theorem lineLoop_round {s s₁ : Tapcp} {n lidx n' : Nat} {out : List UInt8} (hn : 0 < n)
    (hmore : more s = true)
    (hif : (if s.lidx = 0 then newLine s else some (s, true)) = some (s₁, true))
    (hcopy : copyLine s₁.lineBuf s₁.lidx.toNat n = some (out, lidx, n')) :
    lineLoop more newLine s n =
      (lineLoop more newLine { s₁ with lidx } n').map fun r => (r.1, out ++ r.2) := by
  rw [lineLoop, dif_pos ⟨hn, hmore⟩, hif]
  dsimp only
  split
  · next hc => rw [hcopy] at hc; cases hc
  · next out' lidx' n'' hc =>
    rw [hcopy] at hc
    cases hc
    cases lineLoop more newLine { s₁ with lidx } n' <;> rfl

/-- Taking the rest of a list after the part that is in its first half. -/
theorem take_drop_append (l x : List UInt8) (n : Nat) :
    l.take n ++ (l.drop n ++ x).take (n - l.length) = (l ++ x).take n ∧
    (l.drop n ++ x).drop (n - l.length) = (l ++ x).drop n := by
  rcases Nat.le_total n l.length with hle | hle
  · have hzero : n - l.length = 0 := by omega
    rw [hzero, List.take_zero, List.append_nil, List.take_append_of_le_length hle,
      List.drop_append_of_le_length hle]
    exact ⟨rfl, rfl⟩
  · rw [List.drop_eq_nil_of_le hle, List.nil_append, List.take_append, List.drop_append,
      List.drop_eq_nil_of_le hle, List.nil_append]
    exact ⟨rfl, rfl⟩

/--
**One call sends the next bytes of what is pending and of the lines to come.**  Once the last line
is built, less than that line is pending.
-/
theorem LineSource.lineLoop_spec (h : LineSource more newLine Src) {lastLen : Nat} (n : Nat)
    {s : Tapcp} {cur : List UInt8} {todo : List (List UInt8)} (hp : Pending s cur)
    (hsrc : Src s todo) (hgo : n = 0 ∨ cur = [] ∨ todo ≠ [])
    (hlast : ∀ l, todo.getLast? = some l → l.length = lastLen) :
    ∃ s' cur' todo', lineLoop more newLine s n = some (s', (cur ++ todo.flatten).take n) ∧
      Pending s' cur' ∧ Src s' todo' ∧ todo' <:+ todo ∧
      cur' ++ todo'.flatten = (cur ++ todo.flatten).drop n ∧
      (todo' = [] → todo ≠ [] → cur'.length < lastLen) := by
  induction n using Nat.strong_induction_on generalizing s cur todo with
  | _ n ih =>
    by_cases hrun : 0 < n ∧ more s = true
    · have htodo : todo ≠ [] := (h.more_iff hsrc).mp hrun.2
      obtain ⟨s₁, l, todo₁, rest, hif, hlidx, hline, hbuf, hsrc₁, hsuf, hflat, hone⟩ :=
        h.feed.current hp hsrc htodo
      obtain ⟨lidx, hcopy, hp₂⟩ := copyLine_pending hrun.1 hline hbuf
      have hlen : 0 < l.length := List.length_pos_of_ne_nil (isLine_ne_nil hline)
      have hlast₁ : ∀ l', todo₁.getLast? = some l' → l'.length = lastLen := by
        intro l' hl'
        obtain ⟨pre, rfl⟩ := hsuf
        exact hlast l' (by rw [List.getLast?_append, hl']; rfl)
      have hgo₂ : n - l.length = 0 ∨ l.drop n = [] ∨ todo₁ ≠ [] := by
        rcases Nat.le_total n l.length with hle | hle
        · exact Or.inl (by omega)
        · exact Or.inr (Or.inl (List.drop_eq_nil_of_le hle))
      obtain ⟨s', cur', todo', hloop, hp', hsrc', hsuf', hdrop, hcur'⟩ :=
        ih (n - l.length) (by omega) hp₂ (h.move hsrc₁ _) hgo₂ hlast₁
      obtain ⟨htake₂, hdrop₂⟩ := take_drop_append l todo₁.flatten n
      refine ⟨s', cur', todo', ?_, hp', hsrc', hsuf'.trans hsuf, ?_, ?_⟩
      · rw [lineLoop_round more hrun.1 hrun.2 hif hcopy, hloop, ← hflat, ← htake₂, Option.map_some]
      · rw [hdrop, ← hflat, hdrop₂]
      · intro hnil _
        by_cases hnil₁ : todo₁ = []
        · -- the last line is the one in `line_buf`, and some of it has been sent
          subst hnil hnil₁
          have hle := congrArg List.length hdrop
          have hl := hlast l (by rw [hone rfl]; rfl)
          simp only [List.flatten_nil, List.append_nil, List.length_drop] at hle
          omega
        · exact hcur' hnil hnil₁
    · rw [lineLoop, dif_neg hrun]
      refine ⟨s, cur, todo, ?_, hp, hsrc, List.suffix_refl _, ?_, fun hnil hne => absurd hnil hne⟩
      all_goals
        rcases Nat.eq_zero_or_pos n with rfl | hn
        · simp
        · have hnil : todo = [] := by
            by_contra hne
            exact hrun ⟨hn, (h.more_iff hsrc).mpr hne⟩
          rcases hgo with hz | rfl | hne
          · omega
          · simp [hnil]
          · exact absurd hnil hne

/--
**A call of a callback that ends only at the end of its lines sends the next bytes.**  It asks for a
line only when there is room for it, so a full block leaves it in front of what is left.
-/
theorem LineFeed.lineLoop_spec (h : LineFeed newLine Src)
    (hstop : ∀ {s}, Src s [] → s.lidx = 0 → ∃ s', newLine s = some (s', false)) (n : Nat)
    {s : Tapcp} {cur : List UInt8} {todo : List (List UInt8)} (hp : Pending s cur)
    (hsrc : Src s todo) :
    ∃ s', lineLoop (fun _ => true) newLine s n = some (s', (cur ++ todo.flatten).take n) ∧
      (n ≤ (cur ++ todo.flatten).length → ∃ cur' todo', Pending s' cur' ∧ Src s' todo' ∧
        cur' ++ todo'.flatten = (cur ++ todo.flatten).drop n) := by
  induction n using Nat.strong_induction_on generalizing s cur todo with
  | _ n ih =>
    rcases Nat.eq_zero_or_pos n with rfl | hn
    · refine ⟨s, by rw [lineLoop, dif_neg (by omega)]; rfl, fun _ => ⟨cur, todo, hp, hsrc, rfl⟩⟩
    · by_cases hleft : cur = [] ∧ todo = []
      · obtain ⟨rfl, rfl⟩ := hleft
        have hzero : s.lidx = 0 := by
          rcases hp with ⟨hz, -⟩ | ⟨-, hline, -⟩
          · exact hz
          · exact absurd rfl (isLine_ne_nil hline)
        obtain ⟨s', hnew⟩ := hstop hsrc hzero
        rw [lineLoop, dif_pos ⟨hn, rfl⟩, if_pos hzero, hnew]
        exact ⟨s', by simp, fun hle => absurd hle (by simp; omega)⟩
      · obtain ⟨s₁, l, todo₁, rest, hif, hline, hbuf, hsrc₁, hflat⟩ :
            ∃ s₁ l todo₁ rest, (if s.lidx = 0 then newLine s else some (s, true)) =
              some (s₁, true) ∧ IsLine l ∧ s₁.lineBuf.bytes.drop s₁.lidx.toNat = l ++ rest ∧
              Src s₁ todo₁ ∧ l ++ todo₁.flatten = cur ++ todo.flatten := by
          by_cases htodo : todo = []
          · rcases hp with ⟨-, hnil⟩ | ⟨hpos, hline, rest, hbuf⟩
            · exact absurd ⟨hnil, htodo⟩ hleft
            · exact ⟨s, cur, todo, rest, if_neg (by omega), hline, hbuf, hsrc, rfl⟩
          · obtain ⟨s₁, l, todo₁, rest, hif, -, hline, hbuf, hsrc₁, -, hflat, -⟩ :=
              h.current hp hsrc htodo
            exact ⟨s₁, l, todo₁, rest, hif, hline, hbuf, hsrc₁, hflat⟩
        obtain ⟨lidx, hcopy, hp₂⟩ := copyLine_pending hn hline hbuf
        have hlen : 0 < l.length := List.length_pos_of_ne_nil (isLine_ne_nil hline)
        obtain ⟨s', hloop, hrest⟩ := ih (n - l.length) (by omega) hp₂ (h.move hsrc₁ _)
        obtain ⟨htake₂, hdrop₂⟩ := take_drop_append l todo₁.flatten n
        refine ⟨s', ?_, fun hle => ?_⟩
        · rw [lineLoop_round (fun _ => true) hn rfl hif hcopy, hloop, ← hflat, ← htake₂,
            Option.map_some]
        · rw [← hflat, ← hdrop₂]
          refine hrest ?_
          rw [← hflat] at hle
          simp only [List.length_append, List.length_drop] at hle ⊢
          omega

/-! ## Reading to the end -/

/-- A call as a reader of blocks: the bytes it stores. -/
def blockOf (call : Tapcp → Nat → Option (Tapcp × ReadOut)) (s : Tapcp) (n : Nat) :
    Option (Tapcp × List UInt8) := (call s n).map fun r => (r.1, r.2.buf)

/-- `cur` and the lines `todo` are what is left of the lines after `pos` bytes. -/
structure Ahead (lines : List (List UInt8)) (pos : Nat) (cur : List UInt8)
    (todo : List (List UInt8)) : Prop where
  suffix : todo <:+ lines
  flat : cur ++ todo.flatten = lines.flatten.drop pos
  pos_le : pos ≤ lines.flatten.length
  cur_lt : todo = [] → lines ≠ [] → cur.length < (lines.getLast?.getD []).length

/-- The state after `pos` bytes of the lines have been sent. -/
def LinesAt (Src : Tapcp → List (List UInt8) → Prop) (lines : List (List UInt8)) (s : Tapcp)
    (pos : Nat) : Prop :=
  ∃ cur todo, Pending s cur ∧ Src s todo ∧ Ahead lines pos cur todo

/-- The start of the last line. -/
def lastStart (lines : List (List UInt8)) : Nat := lines.dropLast.flatten.length

theorem lastStart_add (lines : List (List UInt8)) :
    lastStart lines + (lines.getLast?.getD []).length = lines.flatten.length := by
  rcases List.eq_nil_or_concat lines with rfl | ⟨init, l, rfl⟩
  · rfl
  · simp [lastStart]

/-- A line that ends the lines to come ends all of them. -/
theorem Ahead.getLast? {lines todo : List (List UInt8)} {pos : Nat} {cur l : List UInt8}
    (h : Ahead lines pos cur todo) (hl : todo.getLast? = some l) : lines.getLast? = some l := by
  obtain ⟨pre, hpre⟩ := h.suffix
  rw [← hpre, List.getLast?_append, hl]
  rfl

/-- Lines are to come if and only if the last one has not been started. -/
theorem Ahead.todo_iff {lines todo : List (List UInt8)} {pos : Nat} {cur : List UInt8}
    (h : Ahead lines pos cur todo) (hne : lines ≠ []) : todo ≠ [] ↔ pos ≤ lastStart lines := by
  have hadd := lastStart_add lines
  have hlen := congrArg List.length h.flat
  have hpos := h.pos_le
  rw [List.length_append, List.length_drop] at hlen
  constructor
  · intro htodo
    have hlast := List.getLast?_eq_some_getLast htodo
    have hadd' := lastStart_add todo
    rw [h.getLast? hlast] at hadd
    rw [hlast] at hadd'
    omega
  · rintro hle rfl
    have := h.cur_lt rfl hne
    rw [List.flatten_nil, List.length_nil] at hlen
    omega

/-- **The reader of lines serves them in order and stops after the start of the last one.** -/
theorem LineSource.stopsAfter (h : LineSource more newLine Src) (lines : List (List UInt8)) :
    StopsAfter (blockOf (readLinesOf more newLine)) lines.flatten (lastStart lines)
      (LinesAt Src lines) where
  serves := by
    rintro s pos ⟨cur, todo, hp, hsrc, ha⟩ hle n -
    have hgo : n = 0 ∨ cur = [] ∨ todo ≠ [] := by
      by_cases hne : lines = []
      · have hflat := ha.flat
        subst hne
        rw [List.flatten_nil, List.drop_nil, List.append_eq_nil_iff] at hflat
        exact Or.inr (Or.inl hflat.1)
      · exact Or.inr (Or.inr ((ha.todo_iff hne).mpr hle))
    have hlast : ∀ l, todo.getLast? = some l → l.length = (lines.getLast?.getD []).length := by
      intro l hl
      rw [ha.getLast? hl, Option.getD_some]
    obtain ⟨s', cur', todo', hloop, hp', hsrc', hsuf', hdrop, hcur'⟩ :=
      h.lineLoop_spec n hp hsrc hgo hlast
    rw [ha.flat] at hloop hdrop
    refine ⟨s', ?_, cur', todo', hp', hsrc', ⟨hsuf'.trans ha.suffix, ?_, Nat.min_le_right _ _, ?_⟩⟩
    · rw [blockOf, readLinesOf, hloop]
      rfl
    · rw [hdrop, List.drop_drop]
      rcases Nat.le_total (pos + n) lines.flatten.length with hn | hn
      · rw [Nat.min_eq_left hn]
      · rw [Nat.min_eq_right hn, List.drop_length, List.drop_eq_nil_of_le hn]
    · intro hnil hne
      exact hcur' hnil ((ha.todo_iff hne).mpr hle)
  stops := by
    rintro s pos ⟨cur, todo, hp, hsrc, ha⟩ hlt n
    have hne : lines ≠ [] := by
      rintro rfl
      have := ha.pos_le
      rw [List.flatten_nil, List.length_nil] at this
      omega
    have hmore : ¬more s = true := by
      rw [h.more_iff hsrc, ha.todo_iff hne]
      omega
    refine ⟨s, ?_, cur, todo, hp, hsrc, ha⟩
    rw [blockOf, readLinesOf, lineLoop, dif_neg (fun hrun => hmore hrun.2)]
    rfl
  last_le := by
    have := lastStart_add lines
    omega

/-- Before the first call nothing has been sent. -/
theorem linesAt_zero {s : Tapcp} {lines : List (List UInt8)} (hlidx : s.lidx = 0)
    (hsrc : Src s lines) : LinesAt Src lines s 0 :=
  ⟨[], lines, Or.inl ⟨hlidx, rfl⟩, hsrc,
    ⟨List.suffix_refl _, rfl, Nat.zero_le _, fun hnil hne => absurd hnil hne⟩⟩

end

end MlibDevel.Jam
