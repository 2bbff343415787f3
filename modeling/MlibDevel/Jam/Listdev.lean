import MlibDevel.Jam.DevCsl
import MlibDevel.Jam.HexRoundTrip

/-!
# The device list (`casper_tapcp_read_listdev_ascii`)

`/listdev` sends a line of text for every device: its name, `1` for read-only or `3`, and its
offset, length and type code in hexadecimal, with tabs between them.  The lines are built from the
iterator over `core_info` and handed out over as many calls as it takes.

Unlike the callbacks that dump memory, this one ends only where the iterator ends, so the last line
is sent however it is cut.  What the iterator does not reach is not sent: a name that occurs twice
ends the list (`listdev_iff`).
-/

namespace MlibDevel.Jam

open Lib

/-! ## Numbers without leading zeros -/

/-- A byte that is not the last of a word, with no digit in front of it. -/
theorem u8ToHex_lead (u8 : UInt8) :
    (u8ToHex u8 0).all isxdigit = true ∧ hexNumber (u8ToHex u8 0) = u8.toNat ∧
      (u8ToHex u8 0).length ≤ 2 ∧ (u8 ≠ 0 → u8ToHex u8 0 ≠ []) :=
  forall_byte (P := fun u8 => (u8ToHex u8 0).all isxdigit = true ∧
    hexNumber (u8ToHex u8 0) = u8.toNat ∧ (u8ToHex u8 0).length ≤ 2 ∧
      (u8 ≠ 0 → u8ToHex u8 0 ≠ [])) (by decide +kernel) u8

/-- The last byte of a word has a digit in any case. -/
theorem u8ToHex_last (u8 : UInt8) :
    (u8ToHex u8 1).all isxdigit = true ∧ hexNumber (u8ToHex u8 1) = u8.toNat ∧
      (u8ToHex u8 1).length ≤ 2 ∧ u8ToHex u8 1 ≠ [] :=
  forall_byte (P := fun u8 => (u8ToHex u8 1).all isxdigit = true ∧
    hexNumber (u8ToHex u8 1) = u8.toNat ∧ (u8ToHex u8 1).length ≤ 2 ∧ u8ToHex u8 1 ≠ [])
    (by decide +kernel) u8

/-- The number whose bytes are given, most significant first. -/
def bytesNumber (cs : List UInt8) (n : Nat) : Nat := cs.foldl (fun n c => 256 * n + c.toNat) n

theorem foldl_flatMap_u8ToHex : ∀ (cs : List UInt8) (n : Nat),
    (cs.flatMap fun c => u8ToHex c 0x11).foldl (fun n c => 16 * n + digitValue c) n =
      bytesNumber cs n
  | [], _ => rfl
  | c :: cs, n => by
    rw [List.flatMap_cons, List.foldl_append, foldl_u8ToHex, foldl_flatMap_u8ToHex cs]
    rfl

/-- The digits of the bytes of a word without leading zeros. -/
theorem u32ToHexLoop_lead : ∀ cs : List UInt8, cs ≠ [] →
    (∀ c ∈ u32ToHexLoop cs 0, isxdigit c = true) ∧
      hexNumber (u32ToHexLoop cs 0) = bytesNumber cs 0 ∧
      (u32ToHexLoop cs 0).length ≤ 2 * cs.length ∧ u32ToHexLoop cs 0 ≠ []
  | [c], _ => by
    obtain ⟨hdig, hval, hlen, hne⟩ := u8ToHex_last c
    have hloop : u32ToHexLoop [c] 0 = u8ToHex c 1 := by simp [u32ToHexLoop]
    rw [hloop]
    exact ⟨List.all_eq_true.mp hdig, by simpa [bytesNumber] using hval, hlen, hne⟩
  | c :: d :: cs, _ => by
    have hloop : u32ToHexLoop (c :: d :: cs) 0 = u8ToHex c 0 ++ u32ToHexLoop (d :: cs) c := by
      rw [u32ToHexLoop, if_neg (by simp), if_neg (by simp), UInt8.zero_or]
    by_cases hc : c = 0
    · subst hc
      obtain ⟨hdig, hval, hlen, hne⟩ := u32ToHexLoop_lead (d :: cs) (by simp)
      have hnil : u8ToHex 0 0 = [] := by decide
      rw [hloop, hnil, List.nil_append]
      refine ⟨hdig, hval, ?_, hne⟩
      simp only [List.length_cons] at hlen ⊢
      omega
    · obtain ⟨hdig, hval, hlen, hne⟩ := u8ToHex_lead c
      rw [hloop, u32ToHexLoop_zeros _ hc]
      refine ⟨?_, ?_, ?_, ?_⟩
      · intro x hx
        rcases List.mem_append.mp hx with hx | hx
        · exact List.all_eq_true.mp hdig x hx
        · obtain ⟨u, -, hu⟩ := List.mem_flatMap.mp hx
          exact (u8ToHex_zeros u).2 x hu
      · rw [hexNumber] at hval ⊢
        rw [List.foldl_append, hval, foldl_flatMap_u8ToHex]
        simp [bytesNumber]
      · have hrest : ((d :: cs).flatMap fun c => u8ToHex c 0x11).length = 2 * (d :: cs).length := by
          rw [List.length_flatMap]
          simp only [(u8ToHex_zeros _).1]
          simp
          omega
        rw [List.length_append, hrest, List.length_cons (a := c)]
        omega
      · exact fun hnil => hne hc (List.append_eq_nil_iff.mp hnil).1

/-- A number of a line is a word that stands for it, with at most eight digits. -/
theorem u32ToHex_lead (w : UInt32) :
    (∀ c ∈ u32ToHex w 0, isxdigit c = true) ∧ hexNumber (u32ToHex w 0) = w.toNat ∧
      (u32ToHex w 0).length ≤ 8 ∧ u32ToHex w 0 ≠ [] := by
  obtain ⟨hdig, hval, hlen, hne⟩ := u32ToHexLoop_lead
    [(w >>> 24).toUInt8, (w >>> 16).toUInt8, (w >>> 8).toUInt8, w.toUInt8] (by simp)
  refine ⟨hdig, ?_, hlen, hne⟩
  have hword := hexNumber_u32ToHex w
  rw [hexNumber, u32ToHex, u32ToHexLoop_zeros _ (by decide), foldl_flatMap_u8ToHex] at hword
  exact hval.trans hword

/-- `hex_to_u32` reads it back. -/
theorem hexToU32_u32ToHex (w u32 : UInt32) : (hexToU32 (u32ToHex w 0) u32).1 = w := by
  obtain ⟨hdig, hval, hlen, hne⟩ := u32ToHex_lead w
  have hword : IsWord (u32ToHex w 0) [] := ⟨hne, hdig, hlen, Or.inr (by decide)⟩
  have heq := hword.hexToU32_eq u32
  rw [List.append_nil] at heq
  rw [heq, hval, UInt32.ofNat_toNat]

/-- A type code has at most two digits. -/
theorem length_u32ToHex_byte (u8 : UInt8) : (u32ToHex u8.toUInt32 0).length ≤ 2 :=
  forall_byte (P := fun u8 => (u32ToHex u8.toUInt32 0).length ≤ 2) (by decide +kernel) u8

/-! ## The text of a line -/

/-- `'\t'` -/
def tab : UInt8 := 0x09

/-- `NAME TAB MODE TAB OFFSET TAB LENGTH TAB TYPE`, without the newline. -/
def listdevFields (name : List UInt8) (info : CasperDevInfo) : List UInt8 :=
  name ++ tab :: (if info.offset &&& 1 ≠ 0 then 0x31 else 0x33) :: tab ::
    (u32ToHex (info.offset &&& ~~~3) 0 ++ tab :: (u32ToHex info.length 0 ++ tab ::
      u32ToHex info.typecode.toUInt32 0))

/-- The line of a device. -/
def Line.text (l : Line) : List UInt8 := listdevFields l.dev l.info ++ [newline]

/-- The callback writes the fields of the record. -/
theorem listdevLine_eq (name payload : List UInt8) :
    listdevLine name payload =
      (devInfo payload).map fun info => listdevFields name info ++ [newline] := by
  rw [listdevLine, devInfo]
  cases payloadWord payload with
  | none => rfl
  | some r =>
    obtain ⟨offset, rest⟩ := r
    dsimp only
    cases payloadWord rest with
    | none => rfl
    | some r =>
      obtain ⟨length, rest⟩ := r
      cases rest with
      | nil => rfl
      | cons typecode rest => simp [listdevFields, tab]

theorem isxdigit_ne {c d : UInt8} (hc : isxdigit c = true) (hd : isxdigit d = false) : c ≠ d := by
  rintro rfl
  rw [hc] at hd
  cases hd

theorem not_mem_u32ToHex {c : UInt8} (hc : isxdigit c = false) (w : UInt32) :
    c ∉ u32ToHex w 0 :=
  fun hm => isxdigit_ne ((u32ToHex_lead w).1 c hm) hc rfl

/-- The fields hold no newline if the name does not. -/
theorem newline_not_mem_fields {name : List UInt8} (h : newline ∉ name) (info : CasperDevInfo) :
    newline ∉ listdevFields name info := by
  have hmode : newline ≠ if info.offset &&& 1 ≠ 0 then 0x31 else 0x33 := by
    split <;> decide
  have hhex := not_mem_u32ToHex (show isxdigit newline = false by decide)
  simp only [listdevFields, List.mem_append, List.mem_cons, not_or]
  exact ⟨h, by decide, hmode, by decide, hhex _, by decide, hhex _, by decide, hhex _⟩

/-- **No line overflows `line_buf`.** -/
theorem length_text_le_lineBufSize {l : Line} (h : l.dev.length ≤ 255) :
    l.text.length ≤ lineBufSize := by
  have hoff := (u32ToHex_lead (l.info.offset &&& ~~~3)).2.2.1
  have hlen := (u32ToHex_lead l.info.length).2.2.1
  have htype := length_u32ToHex_byte l.info.typecode
  simp only [Line.text, listdevFields, List.length_append, List.length_cons, List.length_nil,
    lineBufSize]
  omega

/-! ## Reading the list -/

/-- What a line tells about a device. -/
structure ListedDev where
  name : List UInt8
  readOnly : Bool
  offset : UInt32
  length : UInt32
  typecode : UInt32
  deriving DecidableEq

/-- A line split at its tabs, with the numbers read by `hex_to_u32`. -/
def readListed (line : List UInt8) : Option ListedDev :=
  match line.splitOn tab with
  | [name, mode, offset, length, typecode] =>
    some ⟨name, mode = [0x31], (hexToU32 offset 0).1, (hexToU32 length 0).1,
      (hexToU32 typecode 0).1⟩
  | _ => none

/-- What is to be told about a device: its name, flag, masked offset, length and type. -/
def Line.listed (l : Line) : ListedDev where
  name := l.dev
  readOnly := l.info.offset &&& 1 ≠ 0
  offset := l.info.offset &&& ~~~3
  length := l.info.length
  typecode := l.info.typecode.toUInt32

theorem readListed_fields {l : Line} (h : tab ∉ l.dev) :
    readListed (listdevFields l.dev l.info) = some l.listed := by
  have hhex := not_mem_u32ToHex (show isxdigit tab = false by decide)
  have hmode : tab ∉ [if l.info.offset &&& 1 ≠ 0 then (0x31 : UInt8) else 0x33] := by
    split <;> decide
  have hrest := List.splitOn_append_cons_self_of_not_mem hmode
    (u32ToHex (l.info.offset &&& ~~~3) 0 ++ tab :: (u32ToHex l.info.length 0 ++ tab ::
      u32ToHex l.info.typecode.toUInt32 0))
  rw [List.singleton_append] at hrest
  rw [readListed, listdevFields, List.splitOn_append_cons_self_of_not_mem h, hrest,
    List.splitOn_append_cons_self_of_not_mem (hhex _),
    List.splitOn_append_cons_self_of_not_mem (hhex _), List.splitOn_eq_singleton (hhex _)]
  simp only [hexToU32_u32ToHex, Line.listed]
  by_cases hro : l.info.offset &&& 1 = 0
  · simp [hro]
  · simp [hro]

/-- The lines of the list are read back one by one. -/
theorem terminatedLines_text : ∀ {ls : List Line}, (∀ l ∈ ls, newline ∉ l.dev ∧ tab ∉ l.dev) →
    (terminatedLines (ls.map Line.text).flatten).map readListed = ls.map fun l => some l.listed
  | [], _ => rfl
  | l :: ls, h => by
    obtain ⟨hnl, htab⟩ := h l List.mem_cons_self
    have ih := terminatedLines_text fun m hm => h m (List.mem_cons_of_mem _ hm)
    rw [terminatedLines] at ih ⊢
    rw [List.map_cons, List.flatten_cons, Line.text, List.append_assoc, List.singleton_append,
      List.splitOn_append_cons_self_of_not_mem (newline_not_mem_fields hnl l.info),
      List.dropLast_cons_of_ne_nil (List.splitOn_ne_nil _ _), List.map_cons, ih,
      readListed_fields htab]
    rfl

/-! ## Sending the list -/

/-- The devices the iterator has not reached yet, by their lines. -/
def ListdevSrc (s : Tapcp) (todo : List (List UInt8)) : Prop :=
  ∃ (head : UInt8) (z : List UInt8) (ls : List Line),
    IterOpen (head :: 0 :: z) (ls.map Line.entry) s.csl ∧ todo = ls.map Line.text ∧
      ∀ l ∈ ls, newline ∉ l.dev

theorem listdevFeed : LineFeed listdevNewLine ListdevSrc where
  build := by
    rintro s t todo ⟨head, z, ls, hopen, htodo, hnl⟩ hlidx
    cases ls with
    | nil => cases htodo
    | cons l ls =>
      cases htodo
      rw [List.map_cons] at hopen
      obtain ⟨csl, hnext, -, hkey, hopen'⟩ := cslIterNext_open_cons (by simp) hopen
      have hline : listdevLine (cstr csl.key) (payloadPtr (head :: 0 :: z) l.entry
          (ls.map Line.entry)) = some l.text := by
        rw [listdevLine_eq, hkey, payloadPtr, show l.entry.payload = l.payload from rfl,
          devInfo_payload, Option.map_some]
        rfl
      have hfit := length_text_le_lineBufSize (hopen.fits l.entry List.mem_cons_self).1.2
      rw [listdevNewLine, hnext]
      dsimp only
      rw [hline]
      dsimp only
      rw [LineBuf.put, dif_pos hfit]
      exact ⟨_, _, rfl, hlidx, rfl, head, z, ls, hopen', rfl,
        fun m hm => hnl m (List.mem_cons_of_mem _ hm)⟩
  move := fun ⟨head, z, ls, hopen, htodo, hnl⟩ _ => ⟨head, z, ls, hopen, htodo, hnl⟩
  isLine := by
    rintro s todo ⟨head, z, ls, -, rfl, hnl⟩ t ht
    obtain ⟨l, hl, rfl⟩ := List.mem_map.mp ht
    exact ⟨_, newline_not_mem_fields (hnl l hl) l.info, rfl⟩

/-- Behind the last device the iterator says so. -/
theorem listdevStop {s : Tapcp} (h : ListdevSrc s []) :
    ∃ s', listdevNewLine s = some (s', false) := by
  obtain ⟨head, z, ls, hopen, htodo, -⟩ := h
  obtain rfl : ls = [] := List.map_eq_nil_iff.mp htodo.symm
  rw [listdevNewLine, cslIterNext_open_nil hopen]
  exact ⟨_, rfl⟩

variable (env : Env)

/-- The state after `pos` bytes of the list; before the first call `lidx` is -1. -/
def ListdevAt (lines : List (List UInt8)) (s : Tapcp) (pos : Nat) : Prop :=
  (s.lidx = -1 ∧ pos = 0) ∨
  ∃ cur todo, Pending s cur ∧ ListdevSrc s todo ∧ cur ++ todo.flatten = lines.flatten.drop pos

/-- **The callback sends the lines of the devices in front of the first repeated name.** -/
theorem listdev_servesAll {lines : List Line} (hok : ∀ l ∈ lines, l.Encodable)
    (hnl : ∀ l ∈ lines, newline ∉ l.dev) (hcsl : encodeCsl lines = some env.coreInfo) :
    ServesAll (blockOf (readListdevAscii env)) ((firstLines lines).map Line.text).flatten
      (ListdevAt ((firstLines lines).map Line.text)) := by
  intro s pos hat n hn
  -- a call in the middle of the list
  have hgo : ∀ {t : Tapcp} {cur todo}, Pending t cur → ListdevSrc t todo →
      cur ++ todo.flatten = ((firstLines lines).map Line.text).flatten.drop pos →
      ∃ s', blockOf (readLinesOf (fun _ => true) listdevNewLine) t n =
          some (s', (((firstLines lines).map Line.text).flatten.drop pos).take n) ∧
        (pos + n ≤ ((firstLines lines).map Line.text).flatten.length →
          ListdevAt ((firstLines lines).map Line.text) s' (pos + n)) := by
    intro t cur todo hp hsrc hflat
    obtain ⟨s', hloop, hrest⟩ := listdevFeed.lineLoop_spec (fun h _ => listdevStop h) n hp hsrc
    rw [hflat] at hloop hrest
    refine ⟨s', by rw [blockOf, readLinesOf, hloop]; rfl, fun hle => ?_⟩
    obtain ⟨cur', todo', hp', hsrc', hflat'⟩ := hrest (by rw [List.length_drop]; omega)
    rw [List.drop_drop] at hflat'
    exact Or.inr ⟨cur', todo', hp', hsrc', hflat'⟩
  rcases hat with ⟨hlidx, rfl⟩ | ⟨cur, todo, hp, hsrc, hflat⟩
  · obtain ⟨l, hbytes, -, hfirst⟩ := encodeCsl_firstLines hok hcsl
    obtain ⟨csl, head, z, hinit, -, hopen, -⟩ := cslIterInit_open s.csl l
    rw [← hbytes] at hinit
    rw [hfirst] at hopen
    have hcall : ∀ m, readListdevAscii env s m =
        readLinesOf (fun _ => true) listdevNewLine { s with csl, lidx := 0 } m := fun m => by
      rw [readListdevAscii, if_pos hlidx, hinit]
    have hsrc : ListdevSrc { s with csl, lidx := 0 } ((firstLines lines).map Line.text) :=
      ⟨head, z, firstLines lines, hopen, rfl, fun l hl => hnl l (mem_of_mem_firstLines hl)⟩
    obtain ⟨s', hread, hs'⟩ := hgo (Or.inl ⟨rfl, rfl⟩) hsrc rfl
    refine ⟨s', ?_, hs'⟩
    rw [blockOf, hcall]
    exact hread
  · have hne : s.lidx ≠ -1 := by
      rcases hp with ⟨hz, -⟩ | ⟨hpos, -⟩ <;> omega
    have hcall : ∀ m, readListdevAscii env s m =
        readLinesOf (fun _ => true) listdevNewLine s m := fun m => by
      rw [readListdevAscii, if_neg hne]
    obtain ⟨s', hread, hs'⟩ := hgo hp hsrc hflat
    refine ⟨s', ?_, hs'⟩
    rw [blockOf, hcall]
    exact hread

/-! ## The whole list -/

/--
A client that reads the file to its end gets the line of every device, in the order of the list,
and can read them back.
-/
def Lists (s : Tapcp) (b : Nat → Nat) (ls : List Line) : Prop :=
  ∃ out, (∃ n, ∀ fuel ≥ n, drain (blockOf (readListdevAscii env)) fuel b s = some out) ∧
    out = (ls.map Line.text).flatten ∧
    (terminatedLines out).map readListed = ls.map fun l => some l.listed

/-- Fewer lines are less text. -/
theorem text_take_eq_iff : ∀ (ls : List Line) (k : Nat),
    ((ls.take k).map Line.text).flatten = (ls.map Line.text).flatten ↔ ls.take k = ls
  | [], k => by simp
  | l :: ls, 0 => by simp [Line.text]
  | l :: ls, k + 1 => by
    have ih := text_take_eq_iff ls k
    simp only [List.take_succ_cons, List.map_cons, List.flatten_cons, List.append_right_inj,
      List.cons.injEq, true_and]
    exact ih

/-- What is sent is the text of the first lines, so these have to be all of them. -/
theorem lists_iff_firstLines {lines : List Line} (hok : ∀ l ∈ lines, l.Encodable)
    (hclean : ∀ l ∈ lines, newline ∉ l.dev ∧ tab ∉ l.dev)
    (hcsl : encodeCsl lines = some env.coreInfo) {s : Tapcp} (hbin : s.binary = false)
    {b : Nat → Nat} (hb : ∀ j, 0 < b j) :
    Lists env (openListdev env s).1 b (sortLines lines) ↔ firstLines lines = sortLines lines := by
  have hlidx : (openListdev env s).1.lidx = -1 := by
    rw [openListdev, if_neg (by simp [hbin])]
  have hat : ListdevAt ((firstLines lines).map Line.text) (openListdev env s).1 0 :=
    Or.inl ⟨hlidx, rfl⟩
  obtain ⟨n, hdrain⟩ := drain_servesAll
    (listdev_servesAll env hok (fun l hl => (hclean l hl).1) hcsl) hb hat (Nat.zero_le _)
  rw [List.drop_zero] at hdrain
  constructor
  · rintro ⟨out, ⟨m, hout⟩, htext, -⟩
    have h₁ := hdrain (max n m) (Nat.le_max_left _ _)
    rw [hout (max n m) (Nat.le_max_right _ _), Option.some.injEq] at h₁
    rw [h₁, firstLines] at htext
    exact (text_take_eq_iff _ _).mp htext
  · intro heq
    rw [heq] at hdrain
    exact ⟨_, ⟨n, hdrain⟩, rfl, terminatedLines_text fun l hl => hclean l (mem_sortLines.mp hl)⟩

/-- The names of a table are words. -/
theorem parseTable_clean {text : List UInt8} {lines : List Line}
    (hparse : parseTable text = some lines) {l : Line} (hl : l ∈ lines) :
    newline ∉ l.dev ∧ tab ∉ l.dev := by
  have hword := (parseTable_word hparse hl).2
  exact ⟨fun h => absurd (hword _ h) (by decide), fun h => absurd (hword _ h) (by decide)⟩

/--
**The device list is complete if and only if no name occurs twice.**

Whatever is in `line_buf` and in the iterator, and however the blocks are cut.  An entry with the
name of the one before it has an empty tail, and `csl_iter_next` takes that for the end.
-/
theorem listdev_iff {text : List UInt8} {lines : List Line} (hparse : parseTable text = some lines)
    (hok : ∀ l ∈ lines, l.Encodable) :
    ∃ csl, encodeCsl lines = some csl ∧ ∀ env : Env, env.coreInfo = csl → ∀ s : Tapcp,
      s.binary = false → ∀ b : Nat → Nat, (∀ j, 0 < b j) →
        (Lists env (openListdev env s).1 b (sortLines lines) ↔ (lines.map Line.dev).Nodup) := by
  obtain ⟨csl, hcsl⟩ := encodeCsl_isSome hok
  refine ⟨csl, hcsl, fun env henv s hbin b hb => ?_⟩
  subst henv
  rw [← firstLines_eq_iff fun l hl => (hok l hl).name_ne]
  exact lists_iff_firstLines env hok (fun l hl => parseTable_clean hparse hl) hcsl hbin hb

/-- Two devices, one of them read-only. -/
def gainTable : List UInt8 := ascii "eq_gain 3 100 100 4\neq_count 1 200 4\n"

/-- The same name twice. -/
def twiceTable : List UInt8 := ascii "eq_gain 3 100 100 4\neq_gain 3 200 100 4\n"

/-- Fields in range and names of ASCII characters can be checked. -/
theorem encodable_of_all {lines : List Line}
    (h : lines.all
      (fun l => l.dev ≠ [] && l.dev.length ≤ 255 && l.dev.all (fun c => c ≠ 0 && c < 128) &&
      (0 ≤ l.offset && l.offset < 2 ^ 32) && (0 ≤ l.length && l.length < 2 ^ 32) &&
      (0 ≤ l.typecode && l.typecode < 256)) = true) : ∀ l ∈ lines, l.Encodable := by
  intro l hl
  have hall := List.all_eq_true.mp h l hl
  simp only [Bool.and_eq_true, decide_eq_true_eq, List.all_eq_true] at hall
  obtain ⟨⟨⟨⟨⟨hne, hle⟩, hascii⟩, hoff⟩, hlen⟩, htype⟩ := hall
  exact ⟨hne, hle, hascii, hoff, hlen, htype⟩

/-- The lines of the first table. -/
def gainTableLines : List Line :=
  [⟨ascii "eq_gain", 0x100, 0x100, 4⟩, ⟨ascii "eq_count", 0x201, 4, 0⟩]

/-- The lines of the second. -/
def twiceTableLines : List Line :=
  [⟨ascii "eq_gain", 0x100, 0x100, 4⟩, ⟨ascii "eq_gain", 0x200, 0x100, 4⟩]

theorem gainTable_listed : ∃ env : Env, encodeCsl gainTableLines = some env.coreInfo ∧
    Lists env (openListdev env Tapcp.zero).1 (fun _ => 7) (sortLines gainTableLines) := by
  have hparse : parseTable gainTable = some gainTableLines := by decide +kernel
  obtain ⟨csl, hcsl, h⟩ := listdev_iff hparse (encodable_of_all (by decide +kernel))
  refine ⟨{ Env.zero with coreInfo := csl }, hcsl, ?_⟩
  exact (h _ rfl Tapcp.zero rfl (fun _ => 7) (by simp)).mpr (by decide +kernel)

/-- Only the first of the two devices is listed. -/
theorem twiceTable_not_listed : parseTable twiceTable = some twiceTableLines ∧
    ∃ env : Env, encodeCsl twiceTableLines = some env.coreInfo ∧
      ¬ Lists env (openListdev env Tapcp.zero).1 (fun _ => 512) (sortLines twiceTableLines) := by
  have hparse : parseTable twiceTable = some twiceTableLines := by decide +kernel
  have hok : ∀ l ∈ twiceTableLines, l.Encodable := encodable_of_all (by decide +kernel)
  obtain ⟨csl, hcsl⟩ := encodeCsl_isSome hok
  refine ⟨hparse, { Env.zero with coreInfo := csl }, hcsl, fun hlists => ?_⟩
  have hall := (lists_iff_firstLines _ hok (fun l hl => parseTable_clean hparse hl) hcsl rfl
    (by simp)).mp hlists
  revert hall
  decide +kernel

end MlibDevel.Jam
