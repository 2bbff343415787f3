import Mathlib.Data.List.TakeWhile
import MlibDevel.Jam.CslIter
import MlibDevel.Toolflow.CoreInfo

/-!
# Which names of the core table the firmware can find

Every name the toolflow writes to `core_info.jam.tab` should be found by `csl_find_key` in the list
`cit2csl.py` makes of the table, and visited by an iteration over that list.

A name that stands in the table twice gets an entry with an empty tail, and an empty tail is the
list terminator.  The iteration therefore ends at the first repeated name.  A repetition is harmless
only for the last name of the sorted table; and a name has to survive the split into words.
`jamNames_found_iff` says that these are the only two conditions.

The proof has two halves.

* What a table line becomes: `formatRow` puts the name first, so `line.split()` gives it back
  (`parseTable_names`).
* What an iteration over a sorted list with repetitions reaches (`distinctRun`).
-/

namespace MlibDevel.Toolflow

open Jam Lib

/-! ## Words -/

theorem splitWords_word {w rest : List UInt8} {c : UInt8} (hw : ∀ x ∈ w, isPySpace x = false)
    (hne : w ≠ []) (hc : isPySpace c = true) :
    splitWords (w ++ c :: rest) = w :: splitWords rest := by
  unfold splitWords
  rw [List.splitOnP_append_cons_of_forall_mem hw c hc, List.filter_cons_of_pos (by simpa using hne)]

/-! ## Lines -/

/-- A text that ends a line before more text starts. -/
def EndsLine (text : List UInt8) : Prop := text = [] ∨ ∃ t, text = t ++ [10]

theorem universalNewlines_cons {c : UInt8} {rest : List UInt8}
    (h : c = 13 → ∀ r, rest ≠ 10 :: r) :
    universalNewlines (c :: rest) = (if c = 13 then 10 else c) :: universalNewlines rest := by
  rw [universalNewlines]
  rintro r rfl rfl
  exact h rfl r rfl

/-- A line break keeps what stands before it apart from any text after it. -/
theorem universalNewlines_append (t : List UInt8) :
    ∃ t', ∀ u, universalNewlines (t ++ 10 :: u) = t' ++ 10 :: universalNewlines u := by
  fun_induction universalNewlines t with
  | case1 =>
    exact ⟨[], fun u => by rw [List.nil_append, universalNewlines_cons (by simp)]; rfl⟩
  | case2 rest ih =>
    obtain ⟨t', h⟩ := ih
    exact ⟨10 :: t', fun u => by simp [universalNewlines, h]⟩
  | case3 c rest hne ih =>
    obtain ⟨t', h⟩ := ih
    cases rest with
    | nil =>
      by_cases hc : c = 13
      · subst hc
        exact ⟨[], fun u => by simp [universalNewlines]⟩
      · exact ⟨[c], fun u => by
          rw [List.cons_append, universalNewlines_cons (by simp [hc]), if_neg hc,
            List.nil_append, universalNewlines_cons (by simp)]
          rfl⟩
    | cons d rest =>
      refine ⟨(if c = 13 then 10 else c) :: t', fun u => ?_⟩
      rw [List.cons_append, universalNewlines_cons, h]
      · rfl
      · rintro rfl r hr
        simp only [List.cons_append, List.cons.injEq] at hr
        exact hne rest rfl (by rw [hr.1])

theorem universalNewlines_eq_self : ∀ {t : List UInt8}, 13 ∉ t → universalNewlines t = t
  | [], _ => rfl
  | c :: t, h => by
    simp only [List.mem_cons, not_or] at h
    rw [universalNewlines_cons (fun hc => absurd hc.symm h.1), if_neg (Ne.symm h.1),
      universalNewlines_eq_self h.2]

theorem dropEmptyLast_append (ps : List (List UInt8)) {qs : List (List UInt8)} (h : qs ≠ []) :
    dropEmptyLast (ps ++ qs) = ps ++ dropEmptyLast qs := by
  unfold dropEmptyLast
  rw [List.getLast?_append_of_ne_nil _ h]
  split
  · exact List.dropLast_append_of_ne_nil h
  · rfl

/-- What is read before a line break does not depend on what follows it. -/
theorem readLines_append_line (t : List UInt8) :
    ∃ ls, ∀ u, readLines (t ++ 10 :: u) = ls ++ readLines u := by
  obtain ⟨t', ht⟩ := universalNewlines_append t
  refine ⟨t'.splitOn 10, fun u => ?_⟩
  unfold readLines
  rw [ht, ← dropEmptyLast_append _ (List.splitOn_ne_nil 10 (universalNewlines u))]
  simp only [List.splitOn_eq_splitOnP]
  rw [List.splitOnP_append_cons _ _ (by simp)]

/-- Lines written one after another are read back. -/
theorem readLines_rows : ∀ {rows : List (List UInt8)}, (∀ row ∈ rows, 10 ∉ row ∧ 13 ∉ row) →
    readLines (rows.flatMap fun row => row ++ [10]) = rows
  | [], _ => rfl
  | row :: rows, h => by
    have hrow := h row (by simp)
    have ih := readLines_rows fun r hr => h r (List.mem_cons_of_mem _ hr)
    have hcr : 13 ∉ rows.flatMap fun row => row ++ [10] := by
      simp only [List.mem_flatMap, List.mem_append, List.mem_singleton, not_exists, not_and]
      rintro r hr (hc | hc)
      · exact (h r (List.mem_cons_of_mem _ hr)).2 hc
      · simp at hc
    rw [List.flatMap_cons, List.append_assoc, List.singleton_append]
    unfold readLines at ih ⊢
    rw [universalNewlines_eq_self hcr] at ih
    rw [universalNewlines_eq_self (by simp [hrow.2, hcr]), List.splitOn_eq_splitOnP,
      List.splitOnP_append_cons_of_forall_mem _ _ (by simp)]
    · rw [← List.singleton_append, dropEmptyLast_append _ (List.splitOnP_ne_nil _ _),
        ← List.splitOn_eq_splitOnP, ih]
      rfl
    · intro x hx
      simp only [beq_eq_false_iff_ne, ne_eq]
      rintro rfl
      exact hrow.1 hx

/-- A table that ends its last line, followed by further lines. -/
theorem readLines_append {base : List UInt8} {rows : List (List UInt8)} (hbase : EndsLine base)
    (h : ∀ row ∈ rows, 10 ∉ row ∧ 13 ∉ row) :
    readLines (base ++ rows.flatMap fun row => row ++ [10]) = readLines base ++ rows := by
  rcases hbase with rfl | ⟨t, rfl⟩
  · rw [List.nil_append, readLines_rows h]; rfl
  · obtain ⟨ls, hls⟩ := readLines_append_line t
    rw [List.append_assoc, List.singleton_append, hls, hls, readLines_rows h,
      show readLines [] = [] from rfl, List.append_nil]

/-! ## From a table line back to its name -/

/-- A name that survives the split into words and the C string it becomes. -/
structure CleanName (name : List UInt8) : Prop where
  ne_nil : name ≠ []
  no_space : ∀ c ∈ name, isPySpace c = false
  no_nul : 0 ∉ name

theorem hexDigits_ge {n : Nat} {c : UInt8} (h : c ∈ hexDigits n) : 32 ≤ c := by
  have hchar : ∀ d < 16, 32 ≤ hexChar d := by decide
  fun_induction hexDigits n with
  | case1 n hlt =>
    simp only [List.mem_singleton] at h
    rw [h]; exact hchar n hlt
  | case2 n _ ih =>
    rcases List.mem_append.mp h with h | h
    · exact ih h
    · simp only [List.mem_singleton] at h
      rw [h]; exact hchar _ (Nat.mod_lt _ (by decide))

theorem formatHex_ge {i : Int} {c : UInt8} (h : c ∈ formatHex i) : 32 ≤ c := by
  cases i with
  | ofNat n => exact hexDigits_ge h
  | negSucc n =>
    rcases List.mem_cons.mp h with rfl | h
    · decide
    · exact hexDigits_ge h

theorem mem_ljust {width : Nat} {s : List UInt8} {c : UInt8} (h : c ∈ ljust width s) :
    c ∈ s ∨ c = 32 := by
  rcases List.mem_append.mp h with h | h
  · exact Or.inl h
  · exact Or.inr (List.eq_of_mem_replicate h)

/-- Apart from the name, a table line holds printable characters only. -/
theorem mem_formatRow {longest : Nat} {name : List UInt8} {mode : Mode}
    {addr nbytes typecode : Int} {c : UInt8}
    (h : c ∈ formatRow longest name mode addr nbytes typecode) : c ∈ name ∨ 32 ≤ c := by
  simp only [formatRow, List.mem_append, List.mem_cons] at h
  rcases h with h | rfl | rfl | rfl | h | rfl | h | rfl | h
  · rcases mem_ljust h with h | rfl
    · exact Or.inl h
    · exact Or.inr (by decide)
  · exact Or.inr (by decide)
  · exact Or.inr (by cases mode <;> decide)
  · exact Or.inr (by decide)
  · rcases mem_ljust h with h | rfl
    · exact Or.inr (formatHex_ge h)
    · exact Or.inr (by decide)
  · exact Or.inr (by decide)
  · rcases mem_ljust h with h | rfl
    · exact Or.inr (formatHex_ge h)
    · exact Or.inr (by decide)
  · exact Or.inr (by decide)
  · rcases mem_ljust h with h | rfl
    · exact Or.inr (formatHex_ge h)
    · exact Or.inr (by decide)

theorem formatRow_one_line {longest : Nat} {name : List UInt8} {mode : Mode}
    {addr nbytes typecode : Int} (hname : ∀ c ∈ name, isPySpace c = false) :
    10 ∉ formatRow longest name mode addr nbytes typecode ∧
      13 ∉ formatRow longest name mode addr nbytes typecode := by
  constructor
  · intro h
    rcases mem_formatRow h with h | h
    · exact absurd (hname 10 h) (by decide)
    · exact absurd h (by decide)
  · intro h
    rcases mem_formatRow h with h | h
    · exact absurd (hname 13 h) (by decide)
    · exact absurd h (by decide)

/-- The first word of a table line is the name it was written for. -/
theorem splitWords_formatRow {longest : Nat} {name : List UInt8} {mode : Mode}
    {addr nbytes typecode : Int} (hname : CleanName name) :
    ∃ rest, splitWords (formatRow longest name mode addr nbytes typecode) = name :: rest := by
  have hpad : ∀ (n : Nat) (r : List UInt8),
      List.replicate n 32 ++ 32 :: r = 32 :: (List.replicate n 32 ++ r) := by
    intro n r
    induction n with
    | zero => rfl
    | succ n ih => rw [List.replicate_succ, List.cons_append, ih]; rfl
  unfold formatRow ljust
  rw [List.append_assoc, hpad]
  exact ⟨_, splitWords_word hname.no_space hname.ne_nil (by decide)⟩

/-- Every row of the table was written for a core or alias name. -/
theorem coreRows_names {longest : Nat} {core : MmDevice} {rows : List (List UInt8)}
    (h : coreRows longest core = some rows) :
    List.Forall₂ (fun row name => ∃ m a n t, row = formatRow longest name m a n t) rows
      (core.regname :: core.memoryMap.map Register.name) := by
  simp only [coreRows, Option.map_eq_some_iff] at h
  obtain ⟨base, _, rfl⟩ := h
  refine List.Forall₂.cons ⟨_, _, _, _, rfl⟩ ?_
  rw [List.forall₂_map_left_iff, List.forall₂_map_right_iff, List.forall₂_same]
  exact fun reg _ => ⟨_, _, _, _, rfl⟩

theorem tableRows_names {cores : List MmDevice} {rows : List (List UInt8)}
    (h : tableRows cores = some rows) :
    List.Forall₂ (fun row name => ∃ m a n t, row = formatRow (longestName cores) name m a n t)
      rows (coreNames cores) := by
  generalize hl : longestName cores = longest at *
  simp only [tableRows, hl, Option.map_eq_some_iff] at h
  obtain ⟨rss, hrss, rfl⟩ := h
  clear hl
  induction cores generalizing rss with
  | nil =>
    simp only [List.mapM_nil, Option.pure_def, Option.some.injEq] at hrss
    subst hrss
    exact List.Forall₂.nil
  | cons core cores ih =>
    simp only [List.mapM_cons, Option.bind_eq_bind, Option.bind_eq_some_iff, Option.pure_def,
      Option.some.injEq] at hrss
    obtain ⟨rs, hrs, rss', hrss', rfl⟩ := hrss
    rw [List.flatten_cons]
    exact List.rel_append (coreRows_names hrs) (ih rss' hrss')

/-- Parsing rows that were written for clean names gives these names. -/
theorem mapM_parseLine_names {longest : Nat} : ∀ {rows names : List (List UInt8)}
    {lines : List Line},
    List.Forall₂ (fun row name => ∃ m a n t, row = formatRow longest name m a n t) rows names →
    (∀ name ∈ names, CleanName name) → rows.mapM parseLine = some lines →
    lines.map Line.dev = names
  | [], [], lines, _, _, h => by
    simp only [List.mapM_nil, Option.pure_def, Option.some.injEq] at h
    subst h; rfl
  | row :: rows, name :: names, lines, hrel, hclean, h => by
    obtain ⟨⟨m, a, n, t, rfl⟩, hrel'⟩ := List.forall₂_cons.mp hrel
    simp only [List.mapM_cons, Option.bind_eq_bind, Option.bind_eq_some_iff, Option.pure_def,
      Option.some.injEq] at h
    obtain ⟨l, hl, ls, hls, rfl⟩ := h
    obtain ⟨rest, hw⟩ := parseLine_eq_some hl
    obtain ⟨rest', hw'⟩ := splitWords_formatRow (hclean name (by simp))
    have ih := mapM_parseLine_names hrel' (fun x hx => hclean x (List.mem_cons_of_mem _ hx)) hls
    rw [List.map_cons, ih]
    rw [hw'] at hw
    rw [(List.cons.inj hw).1]

/-- **The device names of the table** are those of the base table and those of the design. -/
theorem parseTable_names {basefile : Option (List UInt8)} {cores : List MmDevice}
    {text : List UInt8} {lines : List Line} (hbase : EndsLine (basefile.getD []))
    (htext : coreJamText basefile cores = some text) (hlines : parseTable text = some lines)
    (hclean : ∀ name ∈ coreNames cores, CleanName name) :
    lines.map Line.dev = baseNames basefile ++ coreNames cores := by
  simp only [coreJamText, Option.map_eq_some_iff] at htext
  obtain ⟨rows, hrows, rfl⟩ := htext
  have hrel := tableRows_names hrows
  have hone : ∀ row ∈ rows, 10 ∉ row ∧ 13 ∉ row := by
    intro row hrow
    obtain ⟨name, hname, m, a, n, t, rfl⟩ : ∃ name ∈ coreNames cores, ∃ m a n t,
        row = formatRow (longestName cores) name m a n t := by
      obtain ⟨i, hi, rfl⟩ := List.mem_iff_getElem.mp hrow
      have hi' : i < (coreNames cores).length := hrel.length_eq ▸ hi
      exact ⟨_, List.getElem_mem hi', hrel.get hi hi'⟩
    exact formatRow_one_line (hclean name hname).no_space
  rw [parseTable, readLines_append hbase hone, List.mapM_append] at hlines
  simp only [Option.bind_eq_bind, Option.bind_eq_some_iff, Option.pure_def,
    Option.some.injEq] at hlines
  obtain ⟨ls₁, h₁, ls₂, h₂, rfl⟩ := hlines
  rw [List.map_append, mapM_parseLine_names hrel hclean h₂, baseNames, parseTable, h₁]
  rfl

/-! ## C strings of names -/

theorem zero_notMem_cstr (name : List UInt8) : 0 ∉ cstr name := by
  intro h
  have := List.mem_takeWhile_imp h
  simp at this

theorem cstr_le : ∀ name : List UInt8, cstr name ≤ name
  | [] => le_refl _
  | c :: name => by
    by_cases hc : c = 0
    · rw [cstr, List.takeWhile_cons_of_neg (by simpa using hc)]
      exact not_lt.mp (List.not_lt_nil _)
    · rw [cstr, List.takeWhile_cons_of_pos (by simpa using hc)]
      refine not_lt.mp fun hlt => ?_
      rcases List.cons_lt_cons_iff.mp hlt with h | ⟨_, h⟩
      · exact lt_irrefl c h
      · exact not_lt.mpr (cstr_le name) h

/-! ## The table, the list and the firmware -/

/-- `csl_find_key` finds each of the names. -/
def FindsAll (csl : List UInt8) (names : List (List UInt8)) : Prop :=
  ∀ name ∈ names, ∃ p, cslFindKey (some csl) name = some (some p)

/-- An iteration over the list visits each of the names. -/
def VisitsAll (csl : List UInt8) (names : List (List UInt8)) : Prop :=
  ∃ visited, cslVisit csl = some visited ∧ ∀ name ∈ names, name ∈ visited

/-- Behind the size field of the binary file stands the list of the parsed table. -/
theorem writeCoreJamInfo_eq_some {arch : MmbusArchitecture} {basefile : Option (List UInt8)}
    {top : Top} {text bin : List UInt8}
    (h : writeCoreJamInfo arch basefile top = some (text, bin)) :
    coreJamText basefile (top.cores arch) = some text ∧ ∃ lines, parseTable text = some lines ∧
      bin.drop 2 = cslBytes ((sortLines lines).map Line.entry) ++ [0, 0] := by
  simp only [writeCoreJamInfo, cit2csl, Option.bind_eq_bind, Option.bind_eq_some_iff,
    Option.pure_def, Option.some.injEq, Prod.mk.injEq] at h
  obtain ⟨t, ht, b, ⟨lines, hlines, csl, hcsl, size, hsize, rfl⟩, rfl, rfl⟩ := h
  refine ⟨ht, lines, hlines, ?_⟩
  have hsize' : size.length = 2 := by
    unfold packH at hsize
    split at hsize
    · rw [← Option.some.inj hsize]; rfl
    · simp at hsize
  rw [List.drop_left' hsize', encodeCsl_eq_some hcsl]

/-- The empty key is never found. -/
theorem cslFindKey_nil {es : List Entry} (hfit : ∀ e ∈ es, e.Fits (UInt8.ofNat payloadLength))
    (hne : ∀ e ∈ es, e.name ≠ []) :
    cslFindKey (some (cslBytes es ++ [0, 0])) [] = some none := by
  cases es with
  | nil => simp [cslBytes, cslFindKey, findLoop_cons]
  | cons e es =>
    obtain ⟨hpl, hlen⟩ := hfit e (by simp)
    have hname := hne e (by simp)
    have hstep : findLoop (UInt8.ofNat payloadLength)
        (entryBody [] e ++ (frontCode e.name es ++ [0, 0])) (List.drop (lcp [] e.name) [])
        (UInt8.ofNat (lcp [] e.name)) = _ :=
      findLoop_entryBody (by simp) hpl hlen (by simpa [List.length_pos_iff] using hname) (by simp)
    rw [if_neg hname, if_pos (by simp), lcp_nil_left, List.drop_nil] at hstep
    rw [cslBytes, List.cons_append, List.append_assoc]
    exact hstep

/-- The stream of a list starts with the stream of any non-empty front part. -/
theorem cslBytes_append {es : List Entry} (h : es ≠ []) (fs : List Entry) :
    ∃ z, cslBytes (es ++ fs) = cslBytes es ++ z := by
  have hcode : ∀ (prev : List UInt8) (es : List Entry),
      ∃ z, frontCode prev (es ++ fs) = frontCode prev es ++ z := by
    intro prev es
    induction es generalizing prev with
    | nil => exact ⟨frontCode prev fs, rfl⟩
    | cons e es ih =>
      obtain ⟨z, hz⟩ := ih e.name
      exact ⟨z, by simp [frontCode, hz]⟩
  obtain ⟨e, es, rfl⟩ := List.exists_cons_of_ne_nil h
  obtain ⟨z, hz⟩ := hcode e.name es
  exact ⟨z, by simp [cslBytes, hz]⟩

theorem lookup_isSome {key z : List UInt8} : ∀ {es : List Entry}, key ∈ es.map Entry.name →
    ∃ p, lookup key z es = some p
  | e :: es, h => by
    rw [lookup]
    split
    · exact ⟨_, rfl⟩
    · next hne =>
      rw [List.map_cons, List.mem_cons] at h
      exact lookup_isSome (h.resolve_left (Ne.symm hne))

/-- A name in the strictly increasing front part of a list is found. -/
theorem cslFindKey_distinctRun {es : List Entry} {key : List UInt8} (hkey : 0 ∉ key)
    (hfit : ∀ e ∈ es, e.Fits (UInt8.ofNat payloadLength)) (hne : ∀ e ∈ es, e.name ≠ [])
    (hsort : ([] :: es.map Entry.name).Pairwise (· ≤ ·))
    (hmem : key ∈ (distinctRun [] es).map Entry.name) :
    ∃ p, cslFindKey (some (cslBytes es ++ [0, 0])) key = some (some p) := by
  obtain ⟨rest, hrest⟩ := distinctRun_isPrefix [] es
  have hrun : distinctRun [] es ≠ [] := by
    intro h; rw [h] at hmem; simp at hmem
  obtain ⟨z, hz⟩ := cslBytes_append hrun rest
  rw [← hrest] at hz
  obtain ⟨p, hp⟩ := lookup_isSome (z := z ++ [0, 0]) hmem
  refine ⟨p, ?_⟩
  rw [hz, List.append_assoc, cslFindKey_cslBytes hkey
    (fun e he => hfit e (mem_of_mem_distinctRun he))
    (fun e he => hne e (mem_of_mem_distinctRun he)) (distinctRun_strict hsort) (Or.inl hmem), hp]

/--
**Which names of a design the firmware finds.**

`write_core_jam_info` has succeeded and no device name in its table is longer than 255 characters.
Then every core and alias name is found and visited if and only if each of them is a word without
NUL characters, and no name that stands in the table more than once is smaller than one of them.
-/
theorem jamNames_found_iff {arch : MmbusArchitecture} {basefile : Option (List UInt8)} {top : Top}
    {text bin : List UInt8} (hbase : EndsLine (basefile.getD []))
    (h : writeCoreJamInfo arch basefile top = some (text, bin))
    (hlen : ∀ l ∈ (parseTable text).getD [], l.dev.length ≤ 255) :
    (FindsAll (bin.drop 2) (coreNames (top.cores arch)) ∧
        VisitsAll (bin.drop 2) (coreNames (top.cores arch))) ↔
      (∀ name ∈ coreNames (top.cores arch), CleanName name) ∧
        ∀ d, 2 ≤ (baseNames basefile ++ coreNames (top.cores arch)).count d →
          ∀ name ∈ coreNames (top.cores arch), name ≤ d := by
  obtain ⟨htext, lines, hlines, hbin⟩ := writeCoreJamInfo_eq_some h
  rw [hlines, Option.getD_some] at hlen
  generalize hes : (sortLines lines).map Line.entry = es at hbin
  have hmemes : ∀ e ∈ es, ∃ l ∈ lines, e = l.entry := by
    intro e he
    rw [← hes] at he
    obtain ⟨l, hl, rfl⟩ := List.mem_map.mp he
    exact ⟨l, mem_sortLines.mp hl, rfl⟩
  have hfit : ∀ e ∈ es, e.Fits (UInt8.ofNat payloadLength) := by
    intro e he
    obtain ⟨l, hl, rfl⟩ := hmemes e he
    exact ⟨rfl, hlen l hl⟩
  have hword : ∀ e ∈ es, e.name ≠ [] ∧ ∀ c ∈ e.name, isPySpace c = false := by
    intro e he
    obtain ⟨l, hl, rfl⟩ := hmemes e he
    exact parseTable_word hlines hl
  have hnames : es.map Entry.name = (sortLines lines).map Line.dev := by
    rw [← hes, List.map_map]; rfl
  have hsort : (es.map Entry.name).Pairwise (· ≤ ·) := by
    rw [hnames, List.pairwise_map]
    exact (List.pairwise_insertionSort (· ≤ ·) lines).imp Line.dev_le_of_le
  have hsort' : ([] :: es.map Entry.name).Pairwise (· ≤ ·) :=
    List.pairwise_cons.mpr ⟨fun _ _ => not_lt.mp (List.not_lt_nil _), hsort⟩
  have hperm : (es.map Entry.name).Perm (lines.map Line.dev) := by
    rw [hnames]; exact (List.perm_insertionSort (· ≤ ·) lines).map Line.dev
  have hvisit := cslVisit_cslBytes hfit hsort
  rw [hbin]
  constructor
  · rintro ⟨hfind, visited, hv, hall⟩
    rw [hvisit] at hv
    obtain rfl := Option.some.inj hv
    -- a visited name is the C string of a word of the table
    have hfrom : ∀ name ∈ coreNames (top.cores arch), ∃ e ∈ distinctRun [] es,
        name = cstr e.name := by
      intro name hname
      obtain ⟨e, he, heq⟩ := List.mem_map.mp (hall name hname)
      exact ⟨e, he, heq.symm⟩
    have hclean : ∀ name ∈ coreNames (top.cores arch), CleanName name := by
      intro name hname
      obtain ⟨e, he, rfl⟩ := hfrom name hname
      refine ⟨fun h0 => ?_, fun c hc => ?_, zero_notMem_cstr _⟩
      · obtain ⟨p, hp⟩ := hfind _ hname
        rw [h0, cslFindKey_nil hfit fun f hf => (hword f hf).1] at hp
        simp at hp
      · exact (hword e (mem_of_mem_distinctRun he)).2 c
          (List.takeWhile_subset _ hc)
    refine ⟨hclean, fun d hd name hname => ?_⟩
    rw [← parseTable_names hbase htext hlines hclean, ← hperm.count_eq] at hd
    obtain ⟨e, he, rfl⟩ := hfrom name hname
    exact le_trans (cstr_le _)
      (distinctRun_le hsort' (le_trans hd List.count_le_count_cons) e he)
  · rintro ⟨hclean, hrep⟩
    have htable := parseTable_names hbase htext hlines hclean
    have hrun : ∀ name ∈ coreNames (top.cores arch),
        name ∈ (distinctRun [] es).map Entry.name := by
      intro name hname
      have hmem : name ∈ es.map Entry.name :=
        hperm.mem_iff.mpr (by rw [htable]; exact List.mem_append_right _ hname)
      refine (mem_distinctRun hsort' (fun d hd => ?_) hmem).resolve_left
        (hclean name hname).ne_nil
      by_cases hd0 : d = []
      · subst hd0
        rw [List.count_cons_self] at hd
        have h0 : [] ∈ es.map Entry.name := List.count_pos_iff.mp (by omega)
        obtain ⟨e, he, h0⟩ := List.mem_map.mp h0
        exact absurd h0 (hword e he).1
      · rw [List.count_cons_of_ne (Ne.symm hd0), hperm.count_eq, htable] at hd
        exact hrep d hd name hname
    refine ⟨fun name hname => ?_, _, hvisit, fun name hname => ?_⟩
    · exact cslFindKey_distinctRun (hclean name hname).no_nul hfit (fun e he => (hword e he).1)
        hsort' (hrun name hname)
    · obtain ⟨e, he, rfl⟩ := List.mem_map.mp (hrun name hname)
      exact List.mem_map.mpr ⟨e, he, cstr_eq_self (hclean _ hname).no_nul⟩

/-- Two AXI4-Lite devices, `adc` and `eth`, neither with a memory map of its own. -/
def axiDevices : List MmDevice :=
  (addAxi4liteInterface (addAxi4liteInterface [] [97, 100, 99] .rw 4 [] 2)
    [101, 116, 104] .rw 16 [] 1).map fun dev => { dev with baseAddr := some 65536 }

/-- The top module with one interface for each of them. -/
def axiTop : Top := { memoryMap := axiDevices.map fun dev => (dev.regname, [dev]) }

/-- The alias of `adc` ends the iteration, so `eth` is never visited. -/
theorem axiTop_eth_not_visited : ∃ text bin,
    writeCoreJamInfo .axi4Lite none axiTop = some (text, bin) ∧
      (∀ l ∈ (parseTable text).getD [], l.dev.length ≤ 255) ∧
      ¬ (FindsAll (bin.drop 2) (coreNames (axiTop.cores .axi4Lite)) ∧
        VisitsAll (bin.drop 2) (coreNames (axiTop.cores .axi4Lite))) := by
  obtain ⟨⟨text, bin⟩, h⟩ : ∃ r, writeCoreJamInfo .axi4Lite none axiTop = some r :=
    Option.isSome_iff_exists.mp (by decide +kernel)
  have hlen : ((writeCoreJamInfo .axi4Lite none axiTop).all fun r =>
      ((parseTable r.1).getD []).all fun l => l.dev.length ≤ 255) = true := by decide +kernel
  have hvisit : ((writeCoreJamInfo .axi4Lite none axiTop).bind fun r => cslVisit (r.2.drop 2))
      = some [[97, 100, 99]] := by decide +kernel
  rw [h] at hlen hvisit
  refine ⟨text, bin, h, by simpa using hlen, ?_⟩
  rintro ⟨_, visited, hv, hall⟩
  rw [Option.bind_some, hv] at hvisit
  obtain rfl := Option.some.inj hvisit
  exact absurd (hall [101, 116, 104] (by decide)) (by decide)

/-- A Wishbone system block `sys` with the alias `sys_rev`. -/
def sysTop : Top where
  wbDevices := [{
    regname := [115, 121, 115]
    nbytes := 64
    mode := .r
    baseAddr := some 0
    memoryMap := [{ name := [115, 121, 115, 95, 114, 101, 118], offset := 4 }]
    typecode := 3 }]

theorem sysTop_names_found : ∃ text bin,
    writeCoreJamInfo .wishbone none sysTop = some (text, bin) ∧
      FindsAll (bin.drop 2) (coreNames (sysTop.cores .wishbone)) ∧
      VisitsAll (bin.drop 2) (coreNames (sysTop.cores .wishbone)) := by
  obtain ⟨⟨text, bin⟩, h⟩ : ∃ r, writeCoreJamInfo .wishbone none sysTop = some r :=
    Option.isSome_iff_exists.mp (by decide +kernel)
  have hlen : ((writeCoreJamInfo .wishbone none sysTop).all fun r =>
      ((parseTable r.1).getD []).all fun l => l.dev.length ≤ 255) = true := by decide +kernel
  rw [h] at hlen
  refine ⟨text, bin, h, (jamNames_found_iff (Or.inl rfl) h (by simpa using hlen)).mpr ⟨?_, ?_⟩⟩
  · have hnames : coreNames (sysTop.cores .wishbone)
        = [[115, 121, 115], [115, 121, 115, 95, 114, 101, 118]] := by decide
    rw [hnames]
    simp only [List.mem_cons, List.not_mem_nil, or_false]
    rintro name (rfl | rfl) <;> constructor <;> simp [isPySpace]
  · intro d hd
    have hnodup : (baseNames none ++ coreNames (sysTop.cores .wishbone)).Nodup := by decide +kernel
    have := List.nodup_iff_count_le_one.mp hnodup d
    omega

end MlibDevel.Toolflow
