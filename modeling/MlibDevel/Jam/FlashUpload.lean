import Mathlib.Data.List.GetD
import MlibDevel.Jam.TapcpOpen

/-!
# Uploads to flash

The flash is what its operations make of it: an erase sets the sector around an address to `0xff`, a
page program clears bits, those that are zero in the page.

`image` is a flash that holds given bytes from an address on, then erased bytes up to the end of a
sector, and what it held before elsewhere.  An erase of the next sector and a program of the next
page lead from one image to the next; `Uploading` says which image there is between two bytes of an
upload, and what the array `page` holds.
-/

namespace MlibDevel.Jam

open Lib

/-! ## The flash -/

/-- The bytes of a flash. -/
abbrev Flash : Type := UInt32 → UInt8

/-- The sector of an address. -/
def sectorOf (addr : UInt32) : Nat := addr.toNat / flashSectorSize

/-- The page of an address. -/
def pageOf (addr : UInt32) : Nat := addr.toNat / flashPageSize

/-- A one clears no bit. -/
theorem and_ff (c : UInt8) : c &&& 0xff = c := UInt8.and_neg_one

theorem ff_and (c : UInt8) : 0xff &&& c = c := UInt8.neg_one_and

/-- What an operation does to a flash. -/
def Flash.apply (f : Flash) : FlashOp → Flash
  | .erase addr => fun a => if sectorOf a = sectorOf addr then 0xff else f a
  | .program addr page => fun a => f a &&& page.bytes.getD (a - addr).toNat 0xff

/-- What operations do to a flash. -/
def Flash.run (f : Flash) (ops : List FlashOp) : Flash := ops.foldl Flash.apply f

theorem Flash.run_append (f : Flash) (ops ops' : List FlashOp) :
    f.run (ops ++ ops') = (f.run ops).run ops' :=
  List.foldl_append

/-- The sector that an operation erases. -/
def FlashOp.erasedSector : FlashOp → Option Nat
  | .erase addr => some (sectorOf addr)
  | .program _ _ => none

/-- The sectors erased by operations, one for each erase. -/
def erasedSectors (ops : List FlashOp) : List Nat := ops.filterMap FlashOp.erasedSector

/-- Before a page is programmed its sector has been erased. -/
def ErasedFirst (ops : List FlashOp) : Prop :=
  ∀ pre addr page post, ops = pre ++ .program addr page :: post →
    sectorOf addr ∈ erasedSectors pre

theorem erasedFirst_append {ops : List FlashOp} (h : ErasedFirst ops) {op : FlashOp}
    (hop : ∀ addr page, op = .program addr page → sectorOf addr ∈ erasedSectors ops) :
    ErasedFirst (ops ++ [op]) := by
  intro pre addr page post heq
  rcases List.eq_nil_or_concat post with rfl | ⟨post', op', rfl⟩
  · obtain ⟨rfl, hlast⟩ := List.append_inj' heq rfl
    exact hop addr page (List.singleton_inj.mp hlast)
  · rw [List.concat_eq_append, ← List.cons_append, ← List.append_assoc] at heq
    exact h pre addr page post' (List.append_inj' heq rfl).1

/-! ## Offsets -/

section

variable {addr : UInt32}

/-- The offset of an address from the beginning of an upload. -/
theorem offset_add (addr : UInt32) (n : Nat) :
    (addr + UInt32.ofNat n - addr).toNat = n % 2 ^ 32 := by
  rw [UInt32.add_comm, UInt32.add_sub_cancel, UInt32.toNat_ofNat']

theorem add_ofNat_sub (addr : UInt32) {m k : Nat} (h : k ≤ m) :
    addr + UInt32.ofNat m - UInt32.ofNat k = addr + UInt32.ofNat (m - k) := by
  have hm : UInt32.ofNat m = UInt32.ofNat (m - k) + UInt32.ofNat k := by
    rw [← UInt32.ofNat_add, Nat.sub_add_cancel h]
  rw [hm, ← UInt32.add_assoc, UInt32.add_sub_cancel]

theorem toNat_eq_offset (addr a : UInt32) :
    a.toNat = (addr.toNat + (a - addr).toNat) % 2 ^ 32 := by
  have ha := a.toNat_lt
  have haddr := addr.toNat_lt
  rw [UInt32.toNat_sub]
  omega

/-- Two addresses are in one sector when their offsets are. -/
theorem sectorOf_eq_iff (h : addr.toNat % flashSectorSize = 0) (a b : UInt32) :
    sectorOf a = sectorOf b ↔
      (a - addr).toNat / flashSectorSize = (b - addr).toNat / flashSectorSize := by
  have ha := toNat_eq_offset addr a
  have hb := toNat_eq_offset addr b
  have hoa := (a - addr).toNat_lt
  have hob := (b - addr).toNat_lt
  have := addr.toNat_lt
  unfold sectorOf flashSectorSize at *
  omega

/-- Two addresses are in one page when their offsets are. -/
theorem pageOf_eq_iff (h : addr.toNat % flashSectorSize = 0) (a b : UInt32) :
    pageOf a = pageOf b ↔
      (a - addr).toNat / flashPageSize = (b - addr).toNat / flashPageSize := by
  have ha := toNat_eq_offset addr a
  have hb := toNat_eq_offset addr b
  have hoa := (a - addr).toNat_lt
  have hob := (b - addr).toNat_lt
  have := addr.toNat_lt
  unfold pageOf flashPageSize flashSectorSize at *
  omega

end

/-! ## Images -/

/--
The flash `f` with the bytes `data` from `addr` on, and erased bytes after them up to the offset
`erased`.
-/
def Flash.image (f : Flash) (addr : UInt32) (data : List UInt8) (erased : Nat) : Flash := fun a =>
  data.getD (a - addr).toNat (if (a - addr).toNat < erased then 0xff else f a)

section

variable {addr : UInt32} {data : List UInt8}

theorem Flash.image_of_lt (f : Flash) (erased : Nat) {a : UInt32}
    (h : (a - addr).toNat < data.length) :
    f.image addr data erased a = data[(a - addr).toNat] :=
  List.getD_eq_getElem _ _ h

theorem Flash.image_of_ge (f : Flash) (erased : Nat) {a : UInt32}
    (h : data.length ≤ (a - addr).toNat) :
    f.image addr data erased a = if (a - addr).toNat < erased then 0xff else f a :=
  List.getD_eq_default _ _ h

theorem Flash.image_nil (f : Flash) : f.image addr [] 0 = f := rfl

/-- The next sector is erased. -/
theorem Flash.apply_erase_image (f : Flash) (haddr : addr.toNat % flashSectorSize = 0) {n : Nat}
    (hn : n % flashSectorSize = 0) (hlt : n < 2 ^ 32) (hdata : data.length ≤ n) :
    (f.image addr data n).apply (.erase (addr + UInt32.ofNat n)) =
      f.image addr data (n + flashSectorSize) := by
  funext a
  show (if sectorOf a = sectorOf (addr + UInt32.ofNat n) then 0xff else f.image addr data n a) = _
  have hsector := sectorOf_eq_iff haddr a (addr + UInt32.ofNat n)
  rw [offset_add, Nat.mod_eq_of_lt hlt] at hsector
  simp only [hsector]
  unfold flashSectorSize at *
  rcases Nat.lt_or_ge (a - addr).toNat data.length with ho | ho
  · rw [if_neg (by omega), f.image_of_lt n ho, f.image_of_lt _ ho]
  · rw [f.image_of_ge n ho, f.image_of_ge _ ho]
    split
    · rw [if_pos (by omega)]
    · split
      · rw [if_pos (by omega)]
      · rw [if_neg (by omega)]

/-- Where the offset of an address is within a page. -/
theorem toNat_sub_add (addr a : UInt32) {m : Nat} (hm : m < 2 ^ 32) :
    (a - (addr + UInt32.ofNat m)).toNat =
      if m ≤ (a - addr).toNat then (a - addr).toNat - m else (a - addr).toNat + (2 ^ 32 - m) := by
  have hoff := (a - addr).toNat_lt
  have ha := toNat_eq_offset addr a
  have hsub : (a - (addr + UInt32.ofNat m)).toNat =
      (2 ^ 32 - (addr.toNat + m) % 2 ^ 32 + a.toNat) % 2 ^ 32 := by
    rw [UInt32.toNat_sub, UInt32.toNat_add, UInt32.toNat_ofNat', Nat.mod_eq_of_lt hm]
  rw [hsub]
  split <;> omega

/-- The next page is programmed. -/
theorem Flash.apply_program_image (f : Flash) {erased : Nat} (page : Page)
    (hroom : data.length + flashPageSize ≤ erased) (hle : erased ≤ 2 ^ 32) :
    (f.image addr data erased).apply (.program (addr + UInt32.ofNat data.length) page) =
      f.image addr (data ++ page.bytes) erased := by
  funext a
  have hsize := page.size
  have hlt : data.length < 2 ^ 32 := by
    unfold flashPageSize at hroom
    omega
  have hoff := toNat_sub_add addr a hlt
  show f.image addr data erased a &&& page.bytes.getD _ 0xff = _
  rw [hoff]
  unfold flashPageSize at *
  rcases Nat.lt_or_ge (a - addr).toNat data.length with ho | ho
  · -- a byte before the page
    rw [if_neg (by omega), List.getD_eq_default _ _ (by omega), f.image_of_lt _ ho,
      f.image_of_lt _ (by rw [List.length_append]; omega), List.getElem_append_left ho, and_ff]
  · rw [if_pos ho, f.image_of_ge _ ho]
    rcases Nat.lt_or_ge (a - addr).toNat (data.length + 0x100) with hp | hp
    · -- a byte of the page, which is still erased
      rw [if_pos (by omega), List.getD_eq_getElem _ _ (by omega),
        f.image_of_lt _ (by rw [List.length_append]; omega), List.getElem_append_right ho, ff_and]
    · rw [List.getD_eq_default _ _ (by omega), f.image_of_ge _ (by rw [List.length_append]; omega),
        and_ff]

end

/-! ## Operations of an upload -/

/--
The operations `ops` of an upload to `addr` have erased `k` sectors and programmed the bytes `prog`.
-/
structure Written (f : Flash) (addr : UInt32) (prog : List UInt8) (k : Nat) (ops : List FlashOp) :
    Prop where
  erased : erasedSectors ops =
    (List.range k).map fun j => sectorOf (addr + UInt32.ofNat (j * flashSectorSize))
  first : ErasedFirst ops
  image : k ≤ 2 ^ 16 → f.run ops = f.image addr prog (k * flashSectorSize)

namespace Written

variable {f : Flash} {addr : UInt32} {prog : List UInt8} {k : Nat} {ops : List FlashOp}

theorem nil (f : Flash) (addr : UInt32) : Written f addr [] 0 [] where
  erased := rfl
  first := fun pre _ _ _ h => by simp at h
  image := fun _ => by
    rw [Nat.zero_mul, f.image_nil]
    rfl

/-- The next sector is erased. -/
theorem erase (h : Written f addr prog k ops) (haddr : addr.toNat % flashSectorSize = 0)
    (hprog : prog.length ≤ k * flashSectorSize) :
    Written f addr prog (k + 1)
      (ops ++ [.erase (addr + UInt32.ofNat (k * flashSectorSize))]) where
  erased := by
    rw [erasedSectors, List.filterMap_append, List.range_succ, List.map_append]
    congr 1
    exact h.erased
  first := erasedFirst_append h.first fun _ _ hop => by cases hop
  image := fun hk => by
    have hlt : k * flashSectorSize < 2 ^ 32 := by
      unfold flashSectorSize
      omega
    rw [f.run_append, h.image (by omega), Nat.succ_mul]
    exact f.apply_erase_image haddr (Nat.mul_mod_left _ _) hlt hprog

/-- The next page is programmed. -/
theorem program (h : Written f addr prog k ops) (haddr : addr.toNat % flashSectorSize = 0)
    (page : Page) (hroom : prog.length + flashPageSize ≤ k * flashSectorSize) :
    Written f addr (prog ++ page.bytes) k
      (ops ++ [.program (addr + UInt32.ofNat prog.length) page]) where
  erased := by
    rw [erasedSectors, List.filterMap_append]
    exact (List.append_nil _).trans h.erased
  first := by
    refine erasedFirst_append h.first fun addr' page' hop => ?_
    obtain ⟨rfl, rfl⟩ := FlashOp.program.inj hop
    rw [h.erased]
    refine List.mem_map.mpr ⟨prog.length / flashSectorSize, ?_, ?_⟩
    · rw [List.mem_range]
      unfold flashSectorSize flashPageSize at *
      omega
    · rw [sectorOf_eq_iff haddr, offset_add, offset_add]
      unfold flashSectorSize
      omega
  image := fun hk => by
    have hle : k * flashSectorSize ≤ 2 ^ 32 := by
      unfold flashSectorSize
      omega
    rw [f.run_append, h.image hk]
    exact f.apply_program_image page hroom hle

/-- `flash_write_page` on the next page. -/
theorem flashWritePage (h : Written f addr prog k ops) (haddr : addr.toNat % flashSectorSize = 0)
    (hroom : prog.length + flashPageSize ≤ k * flashSectorSize) {s : Tapcp}
    {before : List FlashOp} (hops : s.flashOps = before ++ ops) (env : Env) (page : Page) :
    ∃ ops', (flashWritePage env (addr + UInt32.ofNat prog.length) (s, page)).1.flashOps =
        before ++ ops' ∧ Written f addr (prog ++ page.bytes) k ops' := by
  refine ⟨_, ?_, h.program haddr page hroom⟩
  rw [← List.append_assoc, ← hops]
  rfl

end Written

/-- The sectors that `n` bytes from the beginning of one touch. -/
def sectorCount (n : Nat) : Nat := (n + flashSectorSize - 1) / flashSectorSize

/-- The bytes in complete pages. -/
def programmed (data : List UInt8) : List UInt8 :=
  data.take (data.length - data.length % flashPageSize)

/-- The bytes after them. -/
def pending (data : List UInt8) : List UInt8 :=
  data.drop (data.length - data.length % flashPageSize)

theorem length_programmed (data : List UInt8) :
    (programmed data).length = data.length - data.length % flashPageSize := by
  rw [programmed, List.length_take]
  omega

theorem programmed_append_pending (data : List UInt8) : programmed data ++ pending data = data :=
  List.take_append_drop _ _

/-- A byte that does not complete a page. -/
theorem pending_append {data : List UInt8} (h : (data.length + 1) % flashPageSize ≠ 0) (c : UInt8) :
    programmed (data ++ [c]) = programmed data ∧ pending (data ++ [c]) = pending data ++ [c] := by
  have hlen : (data ++ [c]).length - (data ++ [c]).length % flashPageSize =
      data.length - data.length % flashPageSize := by
    rw [List.length_append, List.length_singleton]
    unfold flashPageSize at *
    omega
  rw [programmed, pending, hlen]
  exact ⟨List.take_append_of_le_length (Nat.sub_le _ _),
    List.drop_append_of_le_length (Nat.sub_le _ _)⟩

/-- With complete pages nothing is pending. -/
theorem programmed_of_mod {data : List UInt8} (h : data.length % flashPageSize = 0) :
    programmed data = data ∧ pending data = [] := by
  rw [programmed, pending, h, Nat.sub_zero]
  exact ⟨List.take_length, List.drop_length⟩

theorem Page.take_set (page : Page) {i : Nat} (hi : i < flashPageSize) (c : UInt8) :
    (page.set i c).bytes.take (i + 1) = page.bytes.take i ++ [c] := by
  have hlt : i < page.bytes.length := by rwa [page.size]
  rw [Page.set, List.take_add_one, List.take_set_of_le (Nat.le_refl i), List.getElem?_set_self hlt]
  rfl

@[simp] theorem eraseNewSector_ptr (s : Tapcp) : (eraseNewSector s).ptr = s.ptr := by
  rw [eraseNewSector]
  split <;> rfl

@[simp] theorem eraseNewSector_u32 (s : Tapcp) : (eraseNewSector s).u32 = s.u32 := by
  rw [eraseNewSector]
  split <;> rfl

@[simp] theorem eraseNewSector_writeFn (s : Tapcp) : (eraseNewSector s).writeFn = s.writeFn := by
  rw [eraseNewSector]
  split <;> rfl

/-- The counter of bytes, reduced to a position in a page. -/
theorem ofNat_mod_page (n : Nat) : (UInt32.ofNat n).toNat % flashPageSize = n % flashPageSize := by
  rw [UInt32.toNat_ofNat']
  unfold flashPageSize
  omega

/-- Since a file was opened in the state `s₀` the bytes `data` have been taken. -/
structure Uploading (f : Flash) (s₀ : Tapcp) (data : List UInt8) (r : Tapcp × Page) : Prop where
  ptr : r.1.ptr = s₀.ptr + UInt32.ofNat data.length
  u32 : r.1.u32 = UInt32.ofNat data.length
  writeFn : r.1.writeFn = .flashWordsBinary
  page : r.2.bytes.take (data.length % flashPageSize) = pending data
  ops : ∃ ops, r.1.flashOps = s₀.flashOps ++ ops ∧
    Written f s₀.ptr (programmed data) (sectorCount data.length) ops

/-- `Uploading` at the end of a call: a page that is not complete has been written, too. -/
structure Uploaded (f : Flash) (s₀ : Tapcp) (data : List UInt8) (s : Tapcp) : Prop where
  ptr : s.ptr = s₀.ptr + UInt32.ofNat data.length
  u32 : s.u32 = UInt32.ofNat data.length
  writeFn : s.writeFn = .flashWordsBinary
  ops : ∃ ops rest, s.flashOps = s₀.flashOps ++ ops ∧ rest.length < flashPageSize ∧
    (data.length + rest.length) % flashPageSize = 0 ∧
    Written f s₀.ptr (data ++ rest) (sectorCount data.length) ops

namespace Uploading

variable {f : Flash} {s₀ : Tapcp} {data : List UInt8} {s : Tapcp} {page : Page}

/-- The sector of the next byte has been erased. -/
theorem eraseNewSector_ops (h : Uploading f s₀ data (s, page))
    (haddr : s₀.ptr.toNat % flashSectorSize = 0) :
    ∃ ops, (eraseNewSector s).flashOps = s₀.flashOps ++ ops ∧
      Written f s₀.ptr (programmed data) (sectorCount (data.length + 1)) ops := by
  obtain ⟨ops, hops, hwritten⟩ := h.ops
  have hptr : s.ptr = s₀.ptr + UInt32.ofNat data.length := h.ptr
  have hmod : s.ptr.toNat % flashSectorSize = 0 ↔ data.length % flashSectorSize = 0 := by
    rw [hptr, UInt32.toNat_add, UInt32.toNat_ofNat']
    unfold flashSectorSize at *
    omega
  rw [eraseNewSector]
  by_cases hnew : data.length % flashSectorSize = 0
  · have hcount : sectorCount (data.length + 1) = sectorCount data.length + 1 := by
      unfold sectorCount flashSectorSize at *
      omega
    have hbegin : data.length = sectorCount data.length * flashSectorSize := by
      unfold sectorCount flashSectorSize at *
      omega
    rw [if_pos (hmod.mpr hnew), hcount]
    refine ⟨ops ++ [.erase s.ptr], ?_, ?_⟩
    · rw [← List.append_assoc, ← hops]
    · have herase := hwritten.erase haddr (by rw [length_programmed, ← hbegin]; omega)
      rwa [← hbegin, ← hptr] at herase
  · have hcount : sectorCount (data.length + 1) = sectorCount data.length := by
      unfold sectorCount flashSectorSize at *
      omega
    rw [if_neg (mt hmod.mp hnew), hcount]
    exact ⟨ops, hops, hwritten⟩

/-- The page is complete with its last byte. -/
theorem set_page (h : Uploading f s₀ data (s, page)) (c : UInt8) :
    (page.set (data.length % flashPageSize) c).bytes.take (data.length % flashPageSize + 1) =
      pending data ++ [c] := by
  rw [Page.take_set page (Nat.mod_lt _ (by decide)) c]
  exact congrArg (· ++ [c]) h.page

/-- **A byte is taken.** -/
theorem byte (h : Uploading f s₀ data (s, page)) (haddr : s₀.ptr.toNat % flashSectorSize = 0)
    (env : Env) (c : UInt8) : ∃ r, writeFlashByte env c (s, page) = .next r ∧
      Uploading f s₀ (data ++ [c]) r := by
  obtain ⟨ops, hops, hwritten⟩ := h.eraseNewSector_ops haddr
  have hlen : (data ++ [c]).length = data.length + 1 := List.length_append
  have hptr : (eraseNewSector s).ptr + 1 = s₀.ptr + UInt32.ofNat (data.length + 1) := by
    rw [eraseNewSector_ptr, h.ptr, UInt32.ofNat_add, ← UInt32.add_assoc]
    rfl
  have hu32 : (eraseNewSector s).u32 + 1 = UInt32.ofNat (data.length + 1) := by
    rw [eraseNewSector_u32, h.u32, UInt32.ofNat_add]
    rfl
  have hpage := h.set_page c
  have hidx : (eraseNewSector s).u32.toNat % flashPageSize = data.length % flashPageSize := by
    rw [eraseNewSector_u32, h.u32, ofNat_mod_page]
  rw [writeFlashByte]
  dsimp only
  rw [hptr, hu32, hidx, ofNat_mod_page]
  refine ⟨_, rfl, ?_⟩
  by_cases hfull : (data.length + 1) % flashPageSize = 0
  · -- the page is programmed, and its array then holds anything
    have hlast : data.length % flashPageSize + 1 = flashPageSize := by
      unfold flashPageSize at *
      omega
    have hle : flashPageSize ≤ data.length + 1 := by
      have := Nat.mod_le data.length flashPageSize
      omega
    have hbytes : (page.set (data.length % flashPageSize) c).bytes = pending data ++ [c] := by
      rw [← hpage, hlast, List.take_of_length_le (Page.size _).le]
    have hstart : data.length + 1 - flashPageSize = (programmed data).length := by
      rw [length_programmed]
      omega
    have hmod : (data ++ [c]).length % flashPageSize = 0 := by rw [hlen, hfull]
    obtain ⟨hprog, hpend⟩ := programmed_of_mod hmod
    rw [if_pos hfull, add_ofNat_sub _ hle, hstart]
    constructor
    case ptr => rw [hlen]; rfl
    case u32 => rw [hlen]; rfl
    case writeFn => exact (eraseNewSector_writeFn s).trans h.writeFn
    case page => rw [hlen, hfull, hpend]; rfl
    case ops =>
      have hroom : (programmed data).length + flashPageSize ≤
          sectorCount (data.length + 1) * flashSectorSize := by
        rw [length_programmed]
        unfold sectorCount flashSectorSize flashPageSize at *
        omega
      have hwrite := hwritten.flashWritePage haddr hroom
        (s := { eraseNewSector s with
          ptr := s₀.ptr + UInt32.ofNat (data.length + 1)
          u32 := UInt32.ofNat (data.length + 1) })
        hops env (page.set (data.length % flashPageSize) c)
      rw [hbytes, ← List.append_assoc, programmed_append_pending] at hwrite
      rw [hlen, hprog]
      exact hwrite
  · -- the byte waits in the page
    obtain ⟨hprog, hpend⟩ := pending_append hfull c
    rw [if_neg hfull]
    constructor
    case ptr => rw [hlen]
    case u32 => rw [hlen]
    case writeFn => exact (eraseNewSector_writeFn s).trans h.writeFn
    case page =>
      have hmod : (data.length + 1) % flashPageSize = data.length % flashPageSize + 1 := by
        unfold flashPageSize at *
        omega
      rw [hlen, hmod, hpend]
      exact hpage
    case ops =>
      rw [hlen, hprog]
      exact ⟨ops, hops, hwritten⟩

end Uploading

/-! ## Calls -/

/-- The bytes of a chain. -/
theorem Uploading.bytes {f : Flash} {s₀ : Tapcp} (haddr : s₀.ptr.toNat % flashSectorSize = 0)
    (env : Env) : ∀ (cs : List UInt8) {data : List UInt8} {r : Tapcp × Page},
    Uploading f s₀ data r → ∃ r', eachByte (writeFlashByte env) cs r = .next r' ∧
      Uploading f s₀ (data ++ cs) r'
  | [], data, r, h => ⟨r, rfl, by rwa [List.append_nil]⟩
  | c :: cs, data, (s, page), h => by
    obtain ⟨r₁, hnext, h₁⟩ := h.byte haddr env c
    obtain ⟨r', hrun, h'⟩ := Uploading.bytes haddr env cs h₁
    refine ⟨r', ?_, ?_⟩
    · rw [eachByte, hnext]
      exact hrun
    · rwa [List.append_cons]

/-- At the end of a call the pending bytes are written with what follows them in the array. -/
theorem Uploading.flush {f : Flash} {s₀ : Tapcp} {data : List UInt8} {s : Tapcp} {page : Page}
    (h : Uploading f s₀ data (s, page)) (haddr : s₀.ptr.toNat % flashSectorSize = 0) (env : Env) :
    Uploaded f s₀ data (flushPage env (s, page)) := by
  obtain ⟨ops, hops, hwritten⟩ := h.ops
  have hu32 : s.u32 = UInt32.ofNat data.length := h.u32
  have hptr : s.ptr = s₀.ptr + UInt32.ofNat data.length := h.ptr
  rw [flushPage, hu32, ofNat_mod_page, hptr]
  by_cases hmod : data.length % flashPageSize = 0
  · rw [if_neg (not_not.mpr hmod)]
    rw [(programmed_of_mod hmod).1] at hwritten
    refine ⟨hptr, hu32, h.writeFn, ops, [], hops, by decide, hmod, ?_⟩
    rwa [List.append_nil]
  · have hstart : data.length - data.length % flashPageSize = (programmed data).length :=
      (length_programmed data).symm
    rw [if_pos hmod, add_ofNat_sub _ (Nat.mod_le _ _), hstart]
    have hroom : (programmed data).length + flashPageSize ≤
        sectorCount data.length * flashSectorSize := by
      rw [length_programmed]
      unfold sectorCount flashSectorSize flashPageSize at *
      omega
    obtain ⟨ops', hops', hwritten'⟩ := hwritten.flashWritePage haddr hroom hops env page
    have hpage : page.bytes.take (data.length % flashPageSize) = pending data := h.page
    have hsplit :=
      calc programmed data ++ page.bytes
        _ = programmed data ++
            (pending data ++ page.bytes.drop (data.length % flashPageSize)) := by
          rw [← hpage, List.take_append_drop]
        _ = data ++ page.bytes.drop (data.length % flashPageSize) := by
          rw [← List.append_assoc, programmed_append_pending]
    rw [hsplit] at hwritten'
    refine ⟨hptr, hu32, h.writeFn, ops', _, hops', ?_, ?_, hwritten'⟩
    · rw [List.length_drop, page.size]
      unfold flashPageSize at *
      omega
    · rw [List.length_drop, page.size]
      unfold flashPageSize
      omega

/-- A call that begins with a page does not need what the array held before. -/
theorem Uploaded.begin {f : Flash} {s₀ : Tapcp} {data : List UInt8} {s : Tapcp}
    (h : Uploaded f s₀ data s) (hmod : data.length % flashPageSize = 0) (page : Page) :
    Uploading f s₀ data (s, page) := by
  obtain ⟨ops, rest, hops, hlt, hrest, hwritten⟩ := h.ops
  have hnil : rest = [] := by
    apply List.length_eq_zero_iff.mp
    unfold flashPageSize at *
    omega
  obtain ⟨hprog, hpend⟩ := programmed_of_mod hmod
  refine ⟨h.ptr, h.u32, h.writeFn, ?_, ops, hops, ?_⟩
  · rw [hpend, hmod]
    rfl
  · rw [hnil, List.append_nil] at hwritten
    rwa [hprog]

/-- A call of the callback. -/
theorem Uploaded.call {f : Flash} {s₀ : Tapcp} {data : List UInt8} {s : Tapcp}
    (h : Uploaded f s₀ data s) (haddr : s₀.ptr.toNat % flashSectorSize = 0)
    (hmod : data.length % flashPageSize = 0) (env : Env) (pbuf : Pbuf) :
    ∃ s', callWrite env s pbuf = .ret s' 0 ∧ Uploaded f s₀ (data ++ pbuf.flatten) s' := by
  obtain ⟨⟨s₁, page⟩, hrun, h₁⟩ :=
    Uploading.bytes haddr env pbuf.flatten (h.begin hmod (env.page s.u32))
  refine ⟨flushPage env (s₁, page), ?_, h₁.flush haddr env⟩
  rw [callWrite, h.writeFn]
  dsimp only
  rw [writeFlashWordsBinary, walkPbuf_flatten, hrun]
  rfl

/-- **Call after call.**  All blocks but the last have 512 bytes, so a call begins with a page. -/
theorem Uploaded.calls {f : Flash} {s₀ : Tapcp} (haddr : s₀.ptr.toNat % flashSectorSize = 0)
    (env : Env) : ∀ (pbufs : List Pbuf) {data : List UInt8} {s : Tapcp}, Uploaded f s₀ data s →
    data.length % flashPageSize = 0 → (∀ p ∈ pbufs.dropLast, p.flatten.length = 512) →
    ∃ s', callWrites env pbufs s = some (s', pbufs.map fun _ => 0) ∧
      Uploaded f s₀ (data ++ sentBytes pbufs) s'
  | [], data, s, h, _, _ => by
    refine ⟨s, rfl, ?_⟩
    rwa [sentBytes, List.map_nil, List.flatten_nil, List.append_nil]
  | [pbuf], data, s, h, hmod, _ => by
    obtain ⟨s', hcall, h'⟩ := h.call haddr hmod env pbuf
    refine ⟨s', ?_, ?_⟩
    · rw [callWrites, hcall]
      rfl
    · rwa [sentBytes, List.map_singleton, List.flatten_singleton]
  | pbuf :: next :: pbufs, data, s, h, hmod, hblocks => by
    rw [List.dropLast_cons_cons, List.forall_mem_cons] at hblocks
    obtain ⟨hlen, hrest⟩ := hblocks
    obtain ⟨s₁, hcall, h₁⟩ := h.call haddr hmod env pbuf
    have hmod₁ : (data ++ pbuf.flatten).length % flashPageSize = 0 := by
      rw [List.length_append, hlen]
      unfold flashPageSize at *
      omega
    obtain ⟨s', hcalls, h'⟩ := Uploaded.calls haddr env (next :: pbufs) h₁ hmod₁ hrest
    refine ⟨s', ?_, ?_⟩
    · rw [callWrites, hcall]
      dsimp only
      rw [hcalls]
      rfl
    · rwa [sentBytes, List.map_cons, List.flatten_cons, ← List.append_assoc]

/-! ## What an upload comes to -/

/-- An upload touches an address when one of its bytes goes there. -/
def touchedSectors (addr : UInt32) (n : Nat) : Set Nat :=
  {k | ∃ i < n, sectorOf (addr + UInt32.ofNat i) = k}

def touchedPages (addr : UInt32) (n : Nat) : Set Nat :=
  {k | ∃ i < n, pageOf (addr + UInt32.ofNat i) = k}

/--
The operations `ops` bring the bytes `data` to a flash `f` at `addr`: they erase the sectors of the
bytes, each once and before anything is programmed there, and outside the pages of the bytes a byte
is an erased one in these sectors and otherwise what it was.
-/
structure Uploads (f : Flash) (addr : UInt32) (data : List UInt8) (ops : List FlashOp) : Prop where
  stored : ∀ i (h : i < data.length), f.run ops (addr + UInt32.ofNat i) = data[i]
  once : (erasedSectors ops).Nodup
  touched : ∀ k, k ∈ erasedSectors ops ↔ k ∈ touchedSectors addr data.length
  first : ErasedFirst ops
  erased : ∀ a, pageOf a ∉ touchedPages addr data.length →
    sectorOf a ∈ touchedSectors addr data.length → f.run ops a = 0xff
  kept : ∀ a, sectorOf a ∉ touchedSectors addr data.length → f.run ops a = f a

theorem mem_touchedSectors {addr : UInt32} (haddr : addr.toNat % flashSectorSize = 0) {n : Nat}
    (hn : n ≤ 2 ^ 32) (a : UInt32) : sectorOf a ∈ touchedSectors addr n ↔
      (a - addr).toNat < sectorCount n * flashSectorSize := by
  constructor
  · rintro ⟨i, hi, heq⟩
    rw [sectorOf_eq_iff haddr, offset_add] at heq
    unfold sectorCount flashSectorSize at *
    omega
  · intro hlt
    refine ⟨(a - addr).toNat / flashSectorSize * flashSectorSize, ?_, ?_⟩
    · unfold sectorCount flashSectorSize at *
      omega
    · rw [sectorOf_eq_iff haddr, offset_add]
      unfold sectorCount flashSectorSize at *
      omega

/-- The pages of the bytes. -/
theorem mem_touchedPages {addr : UInt32} (haddr : addr.toNat % flashSectorSize = 0) {n m : Nat}
    (hn : n ≤ 2 ^ 32) (hm : m % flashPageSize = 0) (hle : n ≤ m) (hlt : m < n + flashPageSize)
    (a : UInt32) : pageOf a ∈ touchedPages addr n ↔ (a - addr).toNat < m := by
  constructor
  · rintro ⟨i, hi, heq⟩
    rw [pageOf_eq_iff haddr, offset_add] at heq
    unfold flashPageSize at *
    omega
  · intro ho
    refine ⟨(a - addr).toNat / flashPageSize * flashPageSize, ?_, ?_⟩
    · unfold flashPageSize at *
      omega
    · have := (a - addr).toNat_lt
      rw [pageOf_eq_iff haddr, offset_add]
      unfold flashPageSize at *
      omega

namespace Written

variable {f : Flash} {addr : UInt32} {data rest : List UInt8} {ops : List FlashOp}

/-- The sectors erased are those of the bytes. -/
theorem mem_erasedSectors (h : Written f addr (data ++ rest) (sectorCount data.length) ops)
    (haddr : addr.toNat % flashSectorSize = 0) (k : Nat) :
    k ∈ erasedSectors ops ↔ k ∈ touchedSectors addr data.length := by
  rw [h.erased, List.mem_map]
  constructor
  · rintro ⟨j, hj, rfl⟩
    refine ⟨j * flashSectorSize, ?_, rfl⟩
    rw [List.mem_range] at hj
    unfold sectorCount flashSectorSize at *
    omega
  · rintro ⟨i, hi, rfl⟩
    refine ⟨i / flashSectorSize, ?_, ?_⟩
    · rw [List.mem_range]
      unfold sectorCount flashSectorSize
      omega
    · rw [sectorOf_eq_iff haddr, offset_add, offset_add]
      unfold flashSectorSize
      omega

/-- A sector is erased once as long as the addresses do not come round. -/
theorem nodup_iff (h : Written f addr (data ++ rest) (sectorCount data.length) ops)
    (haddr : addr.toNat % flashSectorSize = 0) :
    (erasedSectors ops).Nodup ↔ data.length ≤ 2 ^ 32 := by
  have hsame : ∀ j j', sectorOf (addr + UInt32.ofNat (j * flashSectorSize)) =
      sectorOf (addr + UInt32.ofNat (j' * flashSectorSize)) ↔ j % 2 ^ 16 = j' % 2 ^ 16 := by
    intro j j'
    rw [sectorOf_eq_iff haddr, offset_add, offset_add]
    unfold flashSectorSize
    omega
  rw [h.erased]
  constructor
  · intro hnodup
    by_contra hlt
    have hmem : 2 ^ 16 ∈ List.range (sectorCount data.length) := by
      rw [List.mem_range]
      unfold sectorCount flashSectorSize
      omega
    have hzero : 0 ∈ List.range (sectorCount data.length) := by
      rw [List.mem_range] at *
      omega
    have := List.inj_on_of_nodup_map hnodup hzero hmem ((hsame _ _).mpr rfl)
    omega
  · intro hle
    refine List.nodup_range.map_on fun j hj j' hj' heq => ?_
    rw [hsame] at heq
    rw [List.mem_range] at hj hj'
    unfold sectorCount flashSectorSize at *
    omega

/-- **The operations of an upload do what they are for.** -/
theorem uploads (h : Written f addr (data ++ rest) (sectorCount data.length) ops)
    (haddr : addr.toNat % flashSectorSize = 0) (hrest : rest.length < flashPageSize)
    (hpages : (data.length + rest.length) % flashPageSize = 0) (hle : data.length ≤ 2 ^ 32) :
    Uploads f addr data ops := by
  have hcount : sectorCount data.length ≤ 2 ^ 16 := by
    unfold sectorCount flashSectorSize
    omega
  have hroom : (data ++ rest).length ≤ sectorCount data.length * flashSectorSize := by
    rw [List.length_append]
    unfold sectorCount flashSectorSize flashPageSize at *
    omega
  have himage := h.image hcount
  constructor
  case stored =>
    intro i hi
    have hoff : (addr + UInt32.ofNat i - addr).toNat = i := by
      rw [offset_add, Nat.mod_eq_of_lt (by omega)]
    have hlt : (addr + UInt32.ofNat i - addr).toNat < (data ++ rest).length := by
      rw [hoff, List.length_append]
      omega
    rw [himage, f.image_of_lt _ hlt]
    simp only [hoff]
    exact List.getElem_append_left hi
  case once => exact (h.nodup_iff haddr).mpr hle
  case touched => exact h.mem_erasedSectors haddr
  case first => exact h.first
  case erased =>
    intro a hpage hsector
    rw [mem_touchedPages haddr hle hpages (by omega) (by omega), not_lt,
      ← List.length_append] at hpage
    rw [mem_touchedSectors haddr hle] at hsector
    rw [himage, f.image_of_ge _ hpage, if_pos hsector]
  case kept =>
    intro a hsector
    rw [mem_touchedSectors haddr hle] at hsector
    rw [himage, f.image_of_ge _ (by omega), if_neg hsector]

end Written

/-- The calls of an upload, from the file just opened on. -/
theorem openFlash_calls (env : Env) {s s₀ : Tapcp} {fname : List UInt8} (hwrite : s.write = true)
    (hopen : openFlash s fname = (s₀, true)) (f : Flash) (pbufs : List Pbuf)
    (hblocks : ∀ p ∈ pbufs.dropLast, p.flatten.length = 512) :
    ∃ s', callWrites env pbufs s₀ = some (s', pbufs.map fun _ => 0) ∧
      Uploaded f s₀ (sentBytes pbufs) s' := by
  obtain ⟨haddr, hu32, hfn⟩ := openFlash_write hwrite hopen
  have hstart : Uploaded f s₀ [] s₀ := by
    refine ⟨(UInt32.add_zero _).symm, hu32, hfn, [], [],
      (List.append_nil _).symm, by decide, rfl, ?_⟩
    exact Written.nil f s₀.ptr
  exact Uploaded.calls haddr env pbufs hstart rfl hblocks

/--
**An upload to flash**, of blocks of 512 bytes with a shorter last one, each in any chain: it is
stored and no other sector is touched, as long as there is an address for each byte.
-/
theorem flash_upload_iff (env : Env) {s s₀ : Tapcp} {fname : List UInt8} (hwrite : s.write = true)
    (hopen : openFlash s fname = (s₀, true)) (f : Flash) (pbufs : List Pbuf)
    (hblocks : ∀ p ∈ pbufs.dropLast, p.flatten.length = 512) :
    ∃ s' ops, callWrites env pbufs s₀ = some (s', pbufs.map fun _ => 0) ∧
      s'.flashOps = s₀.flashOps ++ ops ∧
      (Uploads f s₀.ptr (sentBytes pbufs) ops ↔ (sentBytes pbufs).length ≤ 2 ^ 32) := by
  obtain ⟨haddr, -⟩ := openFlash_write hwrite hopen
  obtain ⟨s', hcalls, h⟩ := openFlash_calls env hwrite hopen f pbufs hblocks
  obtain ⟨ops, rest, hops, hrest, hpages, hwritten⟩ := h.ops
  refine ⟨s', ops, hcalls, hops, ?_, hwritten.uploads haddr hrest hpages⟩
  intro huploads
  exact (hwritten.nodup_iff haddr).mp huploads.once

/-- `/flash.4000` opened for a write. -/
def flashFile : Tapcp :=
  (openFlash { Tapcp.zero with binary := true, write := true } (ascii "/flash.4000")).1

theorem openFlash_flashFile :
    openFlash { Tapcp.zero with binary := true, write := true } (ascii "/flash.4000") =
        (flashFile, true) ∧
      flashFile.ptr = 0x10000 ∧ flashFile.flashOps = [] :=
  ⟨rfl, by decide +kernel, rfl⟩

/-- A block and one byte more. -/
theorem flash_upload_iff_twoBlocks : ∃ s' ops,
    callWrites Env.zero [[List.replicate 300 1, List.replicate 212 2], [[3]]] flashFile =
        some (s', [0, 0]) ∧
      s'.flashOps = ops ∧
      Uploads (fun _ => 0) 0x10000
        (sentBytes [[List.replicate 300 1, List.replicate 212 2], [[3]]]) ops := by
  obtain ⟨hopen, hptr, hops⟩ := openFlash_flashFile
  obtain ⟨s', ops, hcalls, hops', huploads⟩ := flash_upload_iff Env.zero rfl hopen (fun _ => 0)
    [[List.replicate 300 1, List.replicate 212 2], [[3]]] (by decide +kernel)
  rw [hops, List.nil_append] at hops'
  rw [hptr] at huploads
  exact ⟨s', ops, hcalls, hops', huploads.mpr (by decide +kernel)⟩

/-- After an upload of one byte the sector holds no byte of before, whatever its page. -/
theorem flash_upload_erases : ∃ s',
    callWrites Env.zero [[[0]]] flashFile = some (s', [0]) ∧ flashFile.ptr = 0x10000 ∧
      pageOf 0x10100 ∉ touchedPages 0x10000 1 ∧
      Flash.run (fun _ => 0) s'.flashOps 0x10100 ≠ (fun _ => 0 : Flash) 0x10100 := by
  obtain ⟨hopen, hptr, hops⟩ := openFlash_flashFile
  obtain ⟨haddr, -⟩ := openFlash_write rfl hopen
  obtain ⟨s', hcalls, h⟩ := openFlash_calls Env.zero rfl hopen (fun _ => 0) [[[0]]] (by simp)
  obtain ⟨ops, rest, hops', hrest, hpages, hwritten⟩ := h.ops
  have huploads := hwritten.uploads haddr hrest hpages (by decide)
  rw [hptr] at huploads
  rw [hops, List.nil_append] at hops'
  have hpage : pageOf 0x10100 ∉ touchedPages 0x10000 1 := by
    rintro ⟨i, hi, heq⟩
    obtain rfl : i = 0 := by omega
    exact absurd heq (by decide)
  refine ⟨s', hcalls, hptr, hpage, ?_⟩
  rw [hops', huploads.erased 0x10100 hpage ⟨0, Nat.zero_lt_one, by decide⟩]
  decide

end MlibDevel.Jam
