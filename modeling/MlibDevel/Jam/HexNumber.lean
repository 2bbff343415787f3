import MlibDevel.Jam.Listdev

/-!
# Numbers as hexadecimal digits (`hex_to_u32`, `u32_to_hex` of `casper_tapcp.c`)

Main result: `hexToU32_of_u32ToHex` (the digits of a number are read back, up to where they end, and
there are eight of them or none too many).
-/

namespace MlibDevel.Jam

/-- The digits of a byte with no digit in front of it do not begin with a zero. -/
theorem u8ToHex_head (u8 : UInt8) (hne : u8 ≠ 0) :
    (u8ToHex u8 0).head? ≠ some 0x30 ∧ (u8ToHex u8 1).head? ≠ some 0x30 :=
  forall_byte (P := fun u8 => u8 ≠ 0 →
    (u8ToHex u8 0).head? ≠ some 0x30 ∧ (u8ToHex u8 1).head? ≠ some 0x30) (by decide +kernel) u8 hne

theorem u32ToHexLoop_cons_zero {cs : List UInt8} (hne : cs ≠ []) :
    u32ToHexLoop (0 :: cs) 0 = u32ToHexLoop cs 0 := by
  have hnil : u8ToHex 0 0 = [] := by decide
  rw [u32ToHexLoop, if_neg (by simp), if_neg hne, hnil, UInt8.zero_or, List.nil_append]

/-- Neither do those of the bytes of a word, unless all of them are zero. -/
theorem u32ToHexLoop_head : ∀ cs : List UInt8, cs ≠ [] →
    (u32ToHexLoop cs 0).head? ≠ some 0x30 ∨ u32ToHexLoop cs 0 = [0x30] ∧ ∀ c ∈ cs, c = 0
  | [c], _ => by
    have hloop : u32ToHexLoop [c] 0 = u8ToHex c 1 := by simp [u32ToHexLoop]
    by_cases hc : c = 0
    · subst hc
      exact .inr ⟨by decide, by simp⟩
    · rw [hloop]
      exact .inl (u8ToHex_head c hc).2
  | c :: d :: cs, _ => by
    by_cases hc : c = 0
    · subst hc
      rw [u32ToHexLoop_cons_zero (List.cons_ne_nil d cs)]
      rcases u32ToHexLoop_head (d :: cs) (List.cons_ne_nil d cs) with hhead | ⟨hzero, hall⟩
      · exact .inl hhead
      · exact .inr ⟨hzero, List.forall_mem_cons.mpr ⟨rfl, hall⟩⟩
    · have hdigits := (u8ToHex_lead c).2.2.2 hc
      rw [u32ToHexLoop, if_neg (by simp), if_neg (List.cons_ne_nil d cs),
        List.head?_append_of_ne_nil _ hdigits]
      exact .inl (u8ToHex_head c hc).1

/-- A number has no leading zero, and zero has one digit. -/
theorem u32ToHex_head (n : UInt32) :
    (n = 0 ∧ u32ToHex n 0 = [0x30]) ∨ (u32ToHex n 0).head? ≠ some 0x30 := by
  rcases u32ToHexLoop_head [(n >>> 24).toUInt8, (n >>> 16).toUInt8, (n >>> 8).toUInt8, n.toUInt8]
    (List.cons_ne_nil _ _) with hhead | ⟨hzero, -⟩
  · exact .inr hhead
  · -- the digits stand for the number
    have hval := (u32ToHex_lead n).2.1
    rw [u32ToHex, hzero] at hval
    exact .inl ⟨UInt32.toNat_inj.mp hval.symm, hzero⟩

/-- All settings other than 0 are the same. -/
theorem u32ToHex_on (n : UInt32) {doZeros : UInt8} (h : doZeros ≠ 0) :
    u32ToHex n doZeros = u32ToHex n 1 := by
  rw [u32ToHex, u32ToHex, u32ToHexLoop_zeros _ h, u32ToHexLoop_zeros _ (by decide)]

/-- The digits are a word, whatever follows that is not a digit. -/
theorem isWord_of_u32ToHex (n : UInt32) (doZeros : UInt8) {t : List UInt8}
    (ht : isxdigit (deref t) = false) :
    IsWord (u32ToHex n doZeros) t ∧ hexNumber (u32ToHex n doZeros) = n.toNat := by
  by_cases hzeros : doZeros = 0
  · subst hzeros
    obtain ⟨hdigits, hval, hlen, hne⟩ := u32ToHex_lead n
    exact ⟨⟨hne, hdigits, hlen, .inr ht⟩, hval⟩
  · rw [u32ToHex_on n hzeros]
    exact ⟨isWord_u32ToHex n ht, hexNumber_u32ToHex n⟩

/-- **`hex_to_u32` reads the digits that `u32_to_hex` writes**, and stops behind them. -/
theorem hexToU32_of_u32ToHex (n : UInt32) (doZeros : UInt8) (t : List UInt8)
    (ht : isxdigit (deref t) = false) (u32 : UInt32) :
    hexToU32 (u32ToHex n doZeros ++ t) u32 = (n, t) ∧
      (doZeros = 0 →
        (n = 0 ∧ u32ToHex n doZeros = [0x30]) ∨ (u32ToHex n doZeros).head? ≠ some 0x30) ∧
      (doZeros ≠ 0 → (u32ToHex n doZeros).length = 8) := by
  obtain ⟨hword, hval⟩ := isWord_of_u32ToHex n doZeros ht
  refine ⟨?_, ?_, ?_⟩
  · rw [hword.hexToU32_eq, hval, UInt32.ofNat_toNat]
  · rintro rfl
    exact u32ToHex_head n
  · intro hzeros
    rw [u32ToHex_on n hzeros]
    exact (u32ToHex_zeros n).1

/-- `1234`, with no zeros before it and a newline behind it -/
theorem hexToU32_of_u32ToHex_fourDigits :
    hexToU32 (u32ToHex 0x1234 0 ++ [newline]) 0 = (0x1234, [newline]) ∧
      ((0 : UInt8) = 0 → ((0x1234 : UInt32) = 0 ∧ u32ToHex 0x1234 0 = [0x30]) ∨
        (u32ToHex 0x1234 0).head? ≠ some 0x30) ∧
      ((0 : UInt8) ≠ 0 → (u32ToHex 0x1234 0).length = 8) :=
  hexToU32_of_u32ToHex 0x1234 0 [newline] (by decide) 0

end MlibDevel.Jam
