import MlibDevel.Jam.Bytes

/-!
# Packet buffers

A received packet is a chain of `struct pbuf`, each holding some of its bytes.  The chain is
modelled by the list of the parts, so `p->len` is the length of the first part and `p->tot_len`
the length of all of them together.  How the stack cut the packet is visible to the code that walks
the chain, and to nothing else.
-/

namespace MlibDevel.Jam

/-- A pbuf chain: the bytes of each of its buffers in turn. -/
abbrev Pbuf := List (List UInt8)

namespace Pbuf

/-- `p->tot_len` -/
def totLen (p : Pbuf) : Nat := p.flatten.length

/--
`pbuf_header(p, -n)`: hides `n` bytes at the front of the first buffer.  The call leaves the chain
alone when the first buffer is shorter than that.
-/
def hide (p : Pbuf) (n : Nat) : Pbuf :=
  match p with
  | [] => []
  | q :: p => if n ≤ q.length then q.drop n :: p else q :: p

/-- `pbuf_memfind` for the single byte NUL: its offset, or `0xFFFF` when there is none. -/
def memfindNul (p : Pbuf) (start : Nat) : Nat :=
  match (p.flatten.drop start).findIdx? (· = 0) with
  | some i => start + i
  | none => 0xFFFF

/-- The bytes `pbuf_copy_partial(p, dst, len, offset)` copies. -/
def copyPartial (p : Pbuf) (len offset : Nat) : List UInt8 := (p.flatten.drop offset).take len

end Pbuf

/-- The 16-bit word at index `i` of a buffer, in network order: `lwip_ntohs(sbuf[i])`. -/
def ntohsAt (buf : List UInt8) (i : Nat) : Option UInt16 :=
  match buf.drop (2 * i) with
  | hi :: lo :: _ => some (UInt16.ofNat (hi.toNat * 256 + lo.toNat))
  | _ => none

/-- The two bytes of a 16-bit word in network order. -/
def be16 (n : UInt16) : List UInt8 := [UInt8.ofNat (n.toNat / 256), UInt8.ofNat n.toNat]

@[simp] theorem length_be16 (n : UInt16) : (be16 n).length = 2 := rfl

/-- Reading a word back where it was put. -/
theorem ntohsAt_be16 (front : List UInt8) (n : UInt16) (rest : List UInt8) (i : Nat)
    (h : front.length = 2 * i) : ntohsAt (front ++ be16 n ++ rest) i = some n := by
  have hn := n.toNat_lt
  unfold ntohsAt
  rw [← h, List.append_assoc, List.drop_left]
  simp only [be16, List.cons_append, List.nil_append, UInt8.toNat_ofNat', Option.some.injEq]
  apply UInt16.toNat_inj.mp
  rw [UInt16.toNat_ofNat']
  omega

end MlibDevel.Jam
