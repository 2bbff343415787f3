import Mathlib.Data.List.Basic
import MlibDevel.Lib.CrcRemainder
import MlibDevel.FortyGbe.Pkg

/-!
# The check sequence in parallel (`SKA_40GBE_MAC/CRC/crc_*.vhd`)

Each of the modules takes some bytes in one step.  A bit of its output is the exclusive or of some
bits of the register and of the data; a row says which, as two masks.  All of them divide by the
same polynomial (`crcModules_remainder`), since the bit-serial register, run on masks in place of
bits, ends with their rows.
-/

namespace MlibDevel.FortyGbe

open Lib Polynomial

/-! ## The modules -/

/-- The exclusive or of those of the lowest `n` bits of `x` that are set in `mask` -/
def xorOf : Nat → Nat → Nat → Bool
  | 0, _, _ => false
  | n + 1, mask, x => (mask.testBit n && x.testBit n) ^^ xorOf n mask x

/-- `lfsr_c`: the rows from bit 0 on, each with a mask for `lfsr_q` and one for `data_in` -/
def crcOut (rows : List (Nat × Nat)) {n : Nat} (dataIn : BitVec n) (crcIn : BitVec 32) :
    BitVec 32 :=
  vectorOf fun i : Fin 32 =>
    xorOf 32 (rows.getD i (0, 0)).1 crcIn.toNat ^^ xorOf n (rows.getD i (0, 0)).2 dataIn.toNat

/-- The rows of `crc_8` -/
def crc8Rows : List (Nat × Nat) := [
  (0x41000000, 0x41), (0xc3000000, 0xc3), (0xc7000000, 0xc7), (0x8e000000, 0x8e),
  (0x5d000000, 0x5d), (0xfb000000, 0xfb), (0xf6000000, 0xf6), (0xad000000, 0xad),
  (0x1b000001, 0x1b), (0x36000002, 0x36), (0x2d000004, 0x2d), (0x1b000008, 0x1b),
  (0x77000010, 0x77), (0xee000020, 0xee), (0xdc000040, 0xdc), (0xb8000080, 0xb8),
  (0x31000100, 0x31), (0x62000200, 0x62), (0xc4000400, 0xc4), (0x88000800, 0x88),
  (0x10001000, 0x10), (0x20002000, 0x20), (0x1004000, 0x1), (0x43008000, 0x43), (0x86010000, 0x86),
  (0xc020000, 0xc), (0x59040000, 0x59), (0xb2080000, 0xb2), (0x64100000, 0x64), (0xc8200000, 0xc8),
  (0x90400000, 0x90), (0x20800000, 0x20)]

/-- The rows of `crc_16` -/
def crc16Rows : List (Nat × Nat) := [
  (0x16410000, 0x1641), (0x3ac30000, 0x3ac3), (0x63c70000, 0x63c7), (0xc78e0000, 0xc78e),
  (0x995d0000, 0x995d), (0x24fb0000, 0x24fb), (0x49f60000, 0x49f6), (0x85ad0000, 0x85ad),
  (0x1d1b0000, 0x1d1b), (0x3a360000, 0x3a36), (0x622d0000, 0x622d), (0xd21b0000, 0xd21b),
  (0xb2770000, 0xb277), (0x64ee0000, 0x64ee), (0xc9dc0000, 0xc9dc), (0x93b80000, 0x93b8),
  (0x31310001, 0x3131), (0x62620002, 0x6262), (0xc4c40004, 0xc4c4), (0x89880008, 0x8988),
  (0x13100010, 0x1310), (0x26200020, 0x2620), (0x5a010040, 0x5a01), (0xa2430080, 0xa243),
  (0x44860100, 0x4486), (0x890c0200, 0x890c), (0x4590400, 0x459), (0x8b20800, 0x8b2),
  (0x11641000, 0x1164), (0x22c82000, 0x22c8), (0x45904000, 0x4590), (0x8b208000, 0x8b20)]

/-- The rows of `crc_24` -/
def crc24Rows : List (Nat × Nat) := [
  (0x1164100, 0x11641), (0x33ac300, 0x33ac3), (0x763c700, 0x763c7), (0xec78e00, 0xec78e),
  (0x1c995d00, 0x1c995d), (0x3824fb00, 0x3824fb), (0x7049f600, 0x7049f6), (0xe185ad00, 0xe185ad),
  (0xc21d1b00, 0xc21d1b), (0x843a3600, 0x843a36), (0x9622d00, 0x9622d), (0x13d21b00, 0x13d21b),
  (0x26b27700, 0x26b277), (0x4d64ee00, 0x4d64ee), (0x9ac9dc00, 0x9ac9dc), (0x3593b800, 0x3593b8),
  (0x6a313100, 0x6a3131), (0xd4626200, 0xd46262), (0xa8c4c400, 0xa8c4c4), (0x51898800, 0x518988),
  (0xa3131000, 0xa31310), (0x46262000, 0x462620), (0x8d5a0100, 0x8d5a01), (0x1ba24300, 0x1ba243),
  (0x37448601, 0x374486), (0x6e890c02, 0x6e890c), (0xdc045904, 0xdc0459), (0xb808b208, 0xb808b2),
  (0x70116410, 0x701164), (0xe022c820, 0xe022c8), (0xc0459040, 0xc04590), (0x808b2080, 0x808b20)]

/-- The rows of `crc_32` -/
def crc32Rows : List (Nat × Nat) := [
  (0xf7011641, 0xf7011641), (0x19033ac3, 0x19033ac3), (0xc50763c7, 0xc50763c7),
  (0x8a0ec78e, 0x8a0ec78e), (0xe31c995d, 0xe31c995d), (0x313824fb, 0x313824fb),
  (0x627049f6, 0x627049f6), (0x33e185ad, 0x33e185ad), (0x90c21d1b, 0x90c21d1b),
  (0x21843a36, 0x21843a36), (0xb409622d, 0xb409622d), (0x9f13d21b, 0x9f13d21b),
  (0xc926b277, 0xc926b277), (0x924d64ee, 0x924d64ee), (0x249ac9dc, 0x249ac9dc),
  (0x493593b8, 0x493593b8), (0x656a3131, 0x656a3131), (0xcad46262, 0xcad46262),
  (0x95a8c4c4, 0x95a8c4c4), (0x2b518988, 0x2b518988), (0x56a31310, 0x56a31310),
  (0xad462620, 0xad462620), (0xad8d5a01, 0xad8d5a01), (0xac1ba243, 0xac1ba243),
  (0x58374486, 0x58374486), (0xb06e890c, 0xb06e890c), (0x97dc0459, 0x97dc0459),
  (0x2fb808b2, 0x2fb808b2), (0x5f701164, 0x5f701164), (0xbee022c8, 0xbee022c8),
  (0x7dc04590, 0x7dc04590), (0xfb808b20, 0xfb808b20)]

/-- The rows of `crc_40` -/
def crc40Rows : List (Nat × Nat) := [
  (0x25f70116, 0x25f7011641), (0x6e19033a, 0x6e19033ac3), (0xf9c50763, 0xf9c50763c7),
  (0xf38a0ec7, 0xf38a0ec78e), (0xc2e31c99, 0xc2e31c995d), (0xa0313824, 0xa0313824fb),
  (0x40627049, 0x40627049f6), (0xa533e185, 0xa533e185ad), (0x6f90c21d, 0x6f90c21d1b),
  (0xdf21843a, 0xdf21843a36), (0x9bb40962, 0x9bb409622d), (0x129f13d2, 0x129f13d21b),
  (0xc926b2, 0xc926b277), (0x1924d64, 0x1924d64ee), (0x3249ac9, 0x3249ac9dc),
  (0x6493593, 0x6493593b8), (0x29656a31, 0x29656a3131), (0x52cad462, 0x52cad46262),
  (0xa595a8c4, 0xa595a8c4c4), (0x4b2b5189, 0x4b2b518988), (0x9656a313, 0x9656a31310),
  (0x2cad4626, 0x2cad462620), (0x7cad8d5a, 0x7cad8d5a01), (0xdcac1ba2, 0xdcac1ba243),
  (0xb9583744, 0xb958374486), (0x72b06e89, 0x72b06e890c), (0xc097dc04, 0xc097dc0459),
  (0x812fb808, 0x812fb808b2), (0x25f7011, 0x25f701164), (0x4bee022, 0x4bee022c8),
  (0x97dc045, 0x97dc04590), (0x12fb808b, 0x12fb808b20)]

/-- The rows of `crc_48` -/
def crc48Rows : List (Nat × Nat) := [
  (0xb025f701, 0xb025f7011641), (0xd06e1903, 0xd06e19033ac3), (0x10f9c507, 0x10f9c50763c7),
  (0x21f38a0e, 0x21f38a0ec78e), (0xf3c2e31c, 0xf3c2e31c995d), (0x57a03138, 0x57a0313824fb),
  (0xaf406270, 0xaf40627049f6), (0xeea533e1, 0xeea533e185ad), (0x6d6f90c2, 0x6d6f90c21d1b),
  (0xdadf2184, 0xdadf21843a36), (0x59bb409, 0x59bb409622d), (0xbb129f13, 0xbb129f13d21b),
  (0xc600c926, 0xc600c926b277), (0x8c01924d, 0x8c01924d64ee), (0x1803249a, 0x1803249ac9dc),
  (0x30064935, 0x3006493593b8), (0xd029656a, 0xd029656a3131), (0xa052cad4, 0xa052cad46262),
  (0x40a595a8, 0x40a595a8c4c4), (0x814b2b51, 0x814b2b518988), (0x29656a3, 0x29656a31310),
  (0x52cad46, 0x52cad462620), (0xba7cad8d, 0xba7cad8d5a01), (0xc4dcac1b, 0xc4dcac1ba243),
  (0x89b95837, 0x89b958374486), (0x1372b06e, 0x1372b06e890c), (0x96c097dc, 0x96c097dc0459),
  (0x2d812fb8, 0x2d812fb808b2), (0x5b025f70, 0x5b025f701164), (0xb604bee0, 0xb604bee022c8),
  (0x6c097dc0, 0x6c097dc04590), (0xd812fb80, 0xd812fb808b20)]

/-- The rows of `crc_56` -/
def crc56Rows : List (Nat × Nat) := [
  (0xe5b025f7, 0xe5b025f7011641), (0x2ed06e19, 0x2ed06e19033ac3), (0xb810f9c5, 0xb810f9c50763c7),
  (0x7021f38a, 0x7021f38a0ec78e), (0x5f3c2e3, 0x5f3c2e31c995d), (0xee57a031, 0xee57a0313824fb),
  (0xdcaf4062, 0xdcaf40627049f6), (0x5ceea533, 0x5ceea533e185ad), (0x5c6d6f90, 0x5c6d6f90c21d1b),
  (0xb8dadf21, 0xb8dadf21843a36), (0x94059bb4, 0x94059bb409622d), (0xcdbb129f, 0xcdbb129f13d21b),
  (0x7ec600c9, 0x7ec600c926b277), (0xfd8c0192, 0xfd8c01924d64ee), (0xfb180324, 0xfb1803249ac9dc),
  (0xf6300649, 0xf63006493593b8), (0x9d02965, 0x9d029656a3131), (0x13a052ca, 0x13a052cad46262),
  (0x2740a595, 0x2740a595a8c4c4), (0x4e814b2b, 0x4e814b2b518988), (0x9d029656, 0x9d029656a31310),
  (0x3a052cad, 0x3a052cad462620), (0x91ba7cad, 0x91ba7cad8d5a01), (0xc6c4dcac, 0xc6c4dcac1ba243),
  (0x8d89b958, 0x8d89b958374486), (0x1b1372b0, 0x1b1372b06e890c), (0xd396c097, 0xd396c097dc0459),
  (0xa72d812f, 0xa72d812fb808b2), (0x4e5b025f, 0x4e5b025f701164), (0x9cb604be, 0x9cb604bee022c8),
  (0x396c097d, 0x396c097dc04590), (0x72d812fb, 0x72d812fb808b20)]

/-- The rows of `crc_64` -/
def crc64Rows : List (Nat × Nat) := [
  (0xb4e5b025, 0xb4e5b025f7011641), (0xdd2ed06e, 0xdd2ed06e19033ac3),
  (0xeb810f9, 0xeb810f9c50763c7), (0x1d7021f3, 0x1d7021f38a0ec78e),
  (0x8e05f3c2, 0x8e05f3c2e31c995d), (0xa8ee57a0, 0xa8ee57a0313824fb),
  (0x51dcaf40, 0x51dcaf40627049f6), (0x175ceea5, 0x175ceea533e185ad),
  (0x9a5c6d6f, 0x9a5c6d6f90c21d1b), (0x34b8dadf, 0x34b8dadf21843a36),
  (0xdd94059b, 0xdd94059bb409622d), (0xfcdbb12, 0xfcdbb129f13d21b),
  (0xab7ec600, 0xab7ec600c926b277), (0x56fd8c01, 0x56fd8c01924d64ee),
  (0xadfb1803, 0xadfb1803249ac9dc), (0x5bf63006, 0x5bf63006493593b8),
  (0x309d029, 0x309d029656a3131), (0x613a052, 0x613a052cad46262), (0xc2740a5, 0xc2740a595a8c4c4),
  (0x184e814b, 0x184e814b2b518988), (0x309d0296, 0x309d029656a31310),
  (0x613a052c, 0x613a052cad462620), (0x7691ba7c, 0x7691ba7cad8d5a01),
  (0x59c6c4dc, 0x59c6c4dcac1ba243), (0xb38d89b9, 0xb38d89b958374486),
  (0x671b1372, 0x671b1372b06e890c), (0x7ad396c0, 0x7ad396c097dc0459),
  (0xf5a72d81, 0xf5a72d812fb808b2), (0xeb4e5b02, 0xeb4e5b025f701164),
  (0xd69cb604, 0xd69cb604bee022c8), (0xad396c09, 0xad396c097dc04590),
  (0x5a72d812, 0x5a72d812fb808b20)]

/-- The rows of `crc_80` -/
def crc80Rows : List (Nat × Nat) := [
  (0x831eb4e5, 0x831eb4e5b025f7011641), (0x8523dd2e, 0x8523dd2ed06e19033ac3),
  (0x89590eb8, 0x89590eb810f9c50763c7), (0x12b21d70, 0x12b21d7021f38a0ec78e),
  (0xa67a8e05, 0xa67a8e05f3c2e31c995d), (0xcfeba8ee, 0xcfeba8ee57a0313824fb),
  (0x9fd751dc, 0x9fd751dcaf40627049f6), (0xbcb0175c, 0xbcb0175ceea533e185ad),
  (0xfa7e9a5c, 0xfa7e9a5c6d6f90c21d1b), (0xf4fd34b8, 0xf4fd34b8dadf21843a36),
  (0x6ae4dd94, 0x6ae4dd94059bb409622d), (0x56d70fcd, 0x56d70fcdbb129f13d21b),
  (0x2eb0ab7e, 0x2eb0ab7ec600c926b277), (0x5d6156fd, 0x5d6156fd8c01924d64ee),
  (0xbac2adfb, 0xbac2adfb1803249ac9dc), (0x75855bf6, 0x75855bf63006493593b8),
  (0x68140309, 0x68140309d029656a3131), (0xd0280613, 0xd0280613a052cad46262),
  (0xa0500c27, 0xa0500c2740a595a8c4c4), (0x40a0184e, 0x40a0184e814b2b518988),
  (0x8140309d, 0x8140309d029656a31310), (0x280613a, 0x280613a052cad462620),
  (0x861e7691, 0x861e7691ba7cad8d5a01), (0x8f2259c6, 0x8f2259c6c4dcac1ba243),
  (0x1e44b38d, 0x1e44b38d89b958374486), (0x3c89671b, 0x3c89671b1372b06e890c),
  (0xfa0c7ad3, 0xfa0c7ad396c097dc0459), (0xf418f5a7, 0xf418f5a72d812fb808b2),
  (0xe831eb4e, 0xe831eb4e5b025f701164), (0xd063d69c, 0xd063d69cb604bee022c8),
  (0xa0c7ad39, 0xa0c7ad396c097dc04590), (0x418f5a72, 0x418f5a72d812fb808b20)]

/-- The rows of `crc_128` -/
def crc128Rows : List (Nat × Nat) := [
  (0xe8f6c5af, 0xe8f6c5afc0be831eb4e5b025f7011641),
  (0x391b4ef0, 0x391b4ef041c38523dd2ed06e19033ac3),
  (0x9ac0584f, 0x9ac0584f433989590eb810f9c50763c7),
  (0x3580b09e, 0x3580b09e867312b21d7021f38a0ec78e),
  (0x83f7a492, 0x83f7a492cc58a67a8e05f3c2e31c995d),
  (0xef198c8a, 0xef198c8a580fcfeba8ee57a0313824fb),
  (0xde331914, 0xde331914b01f9fd751dcaf40627049f6),
  (0x5490f786, 0x5490f786a081bcb0175ceea533e185ad),
  (0x41d72aa2, 0x41d72aa281bdfa7e9a5c6d6f90c21d1b),
  (0x83ae5545, 0x83ae5545037bf4fd34b8dadf21843a36),
  (0xefaa6f25, 0xefaa6f25c6496ae4dd94059bb409622d),
  (0x37a21be4, 0x37a21be44c2c56d70fcdbb129f13d21b),
  (0x87b2f267, 0x87b2f26758e62eb0ab7ec600c926b277), (0xf65e4ce, 0xf65e4ceb1cc5d6156fd8c01924d64ee),
  (0x1ecbc99d, 0x1ecbc99d6398bac2adfb1803249ac9dc),
  (0x3d97933a, 0x3d97933ac73175855bf63006493593b8),
  (0x93d9e3da, 0x93d9e3da4edc68140309d029656a3131),
  (0x27b3c7b4, 0x27b3c7b49db8d0280613a052cad46262),
  (0x4f678f69, 0x4f678f693b71a0500c2740a595a8c4c4),
  (0x9ecf1ed2, 0x9ecf1ed276e340a0184e814b2b518988),
  (0x3d9e3da4, 0x3d9e3da4edc68140309d029656a31310),
  (0x7b3c7b49, 0x7b3c7b49db8d0280613a052cad462620),
  (0x1e8e333c, 0x1e8e333c77a4861e7691ba7cad8d5a01),
  (0xd5eaa3d7, 0xd5eaa3d72ff78f2259c6c4dcac1ba243),
  (0xabd547ae, 0xabd547ae5fef1e44b38d89b958374486),
  (0x57aa8f5c, 0x57aa8f5cbfde3c89671b1372b06e890c),
  (0x47a3db16, 0x47a3db16bf02fa0c7ad396c097dc0459),
  (0x8f47b62d, 0x8f47b62d7e05f418f5a72d812fb808b2),
  (0x1e8f6c5a, 0x1e8f6c5afc0be831eb4e5b025f701164),
  (0x3d1ed8b5, 0x3d1ed8b5f817d063d69cb604bee022c8),
  (0x7a3db16b, 0x7a3db16bf02fa0c7ad396c097dc04590),
  (0xf47b62d7, 0xf47b62d7e05f418f5a72d812fb808b20)]

/-- The rows of `crc_144` -/
def crc144Rows : List (Nat × Nat) := [
  (0x83d1e8f6, 0x83d1e8f6c5afc0be831eb4e5b025f7011641),
  (0x8472391b, 0x8472391b4ef041c38523dd2ed06e19033ac3),
  (0x8b359ac0, 0x8b359ac0584f433989590eb810f9c50763c7),
  (0x166b3580, 0x166b3580b09e867312b21d7021f38a0ec78e),
  (0xaf0783f7, 0xaf0783f7a492cc58a67a8e05f3c2e31c995d),
  (0xdddeef19, 0xdddeef198c8a580fcfeba8ee57a0313824fb),
  (0xbbbdde33, 0xbbbdde331914b01f9fd751dcaf40627049f6),
  (0xf4aa5490, 0xf4aa5490f786a081bcb0175ceea533e185ad),
  (0x6a8541d7, 0x6a8541d72aa281bdfa7e9a5c6d6f90c21d1b),
  (0xd50a83ae, 0xd50a83ae5545037bf4fd34b8dadf21843a36),
  (0x29c4efaa, 0x29c4efaa6f25c6496ae4dd94059bb409622d),
  (0xd05837a2, 0xd05837a21be44c2c56d70fcdbb129f13d21b),
  (0x236187b2, 0x236187b2f26758e62eb0ab7ec600c926b277),
  (0x46c30f65, 0x46c30f65e4ceb1cc5d6156fd8c01924d64ee),
  (0x8d861ecb, 0x8d861ecbc99d6398bac2adfb1803249ac9dc),
  (0x1b0c3d97, 0x1b0c3d97933ac73175855bf63006493593b8),
  (0xb5c993d9, 0xb5c993d9e3da4edc68140309d029656a3131),
  (0x6b9327b3, 0x6b9327b3c7b49db8d0280613a052cad46262),
  (0xd7264f67, 0xd7264f678f693b71a0500c2740a595a8c4c4),
  (0xae4c9ecf, 0xae4c9ecf1ed276e340a0184e814b2b518988),
  (0x5c993d9e, 0x5c993d9e3da4edc68140309d029656a31310),
  (0xb9327b3c, 0xb9327b3c7b49db8d0280613a052cad462620),
  (0xf1b51e8e, 0xf1b51e8e333c77a4861e7691ba7cad8d5a01),
  (0x60bbd5ea, 0x60bbd5eaa3d72ff78f2259c6c4dcac1ba243),
  (0xc177abd5, 0xc177abd547ae5fef1e44b38d89b958374486),
  (0x82ef57aa, 0x82ef57aa8f5cbfde3c89671b1372b06e890c),
  (0x860f47a3, 0x860f47a3db16bf02fa0c7ad396c097dc0459),
  (0xc1e8f47, 0xc1e8f47b62d7e05f418f5a72d812fb808b2),
  (0x183d1e8f, 0x183d1e8f6c5afc0be831eb4e5b025f701164),
  (0x307a3d1e, 0x307a3d1ed8b5f817d063d69cb604bee022c8),
  (0x60f47a3d, 0x60f47a3db16bf02fa0c7ad396c097dc04590),
  (0xc1e8f47b, 0xc1e8f47b62d7e05f418f5a72d812fb808b20)]

/-- The rows of `crc_192` -/
def crc192Rows : List (Nat × Nat) := [
  (0xd4c01ec6, 0xd4c01ec658a183d1e8f6c5afc0be831eb4e5b025f7011641),
  (0x7d40234a, 0x7d40234ae9e28472391b4ef041c38523dd2ed06e19033ac3),
  (0x2e405853, 0x2e4058538b648b359ac0584f433989590eb810f9c50763c7),
  (0x5c80b0a7, 0x5c80b0a716c9166b3580b09e867312b21d7021f38a0ec78e),
  (0x6dc17f88, 0x6dc17f887533af0783f7a492cc58a67a8e05f3c2e31c995d),
  (0xf42e1d6, 0xf42e1d6b2c6dddeef198c8a580fcfeba8ee57a0313824fb),
  (0x1e85c3ad, 0x1e85c3ad658dbbbdde331914b01f9fd751dcaf40627049f6),
  (0xe9cb999c, 0xe9cb999c93baf4aa5490f786a081bcb0175ceea533e185ad),
  (0x7572dff, 0x7572dff7fd46a8541d72aa281bdfa7e9a5c6d6f90c21d1b),
  (0xeae5bfe, 0xeae5bfeffa8d50a83ae5545037bf4fd34b8dadf21843a36),
  (0xc99ca93b, 0xc99ca93ba7f029c4efaa6f25c6496ae4dd94059bb409622d),
  (0x47f94cb1, 0x47f94cb11741d05837a21be44c2c56d70fcdbb129f13d21b),
  (0x5b3287a4, 0x5b3287a47622236187b2f26758e62eb0ab7ec600c926b277),
  (0xb6650f48, 0xb6650f48ec4446c30f65e4ceb1cc5d6156fd8c01924d64ee),
  (0x6cca1e91, 0x6cca1e91d8888d861ecbc99d6398bac2adfb1803249ac9dc),
  (0xd9943d23, 0xd9943d23b1111b0c3d97933ac73175855bf63006493593b8),
  (0x67e86481, 0x67e864813a83b5c993d9e3da4edc68140309d029656a3131),
  (0xcfd0c902, 0xcfd0c90275076b9327b3c7b49db8d0280613a052cad46262),
  (0x9fa19204, 0x9fa19204ea0ed7264f678f693b71a0500c2740a595a8c4c4),
  (0x3f432409, 0x3f432409d41dae4c9ecf1ed276e340a0184e814b2b518988),
  (0x7e864813, 0x7e864813a83b5c993d9e3da4edc68140309d029656a31310),
  (0xfd0c9027, 0xfd0c90275076b9327b3c7b49db8d0280613a052cad462620),
  (0x2ed93e88, 0x2ed93e88f84cf1b51e8e333c77a4861e7691ba7cad8d5a01),
  (0x897263d7, 0x897263d7a83860bbd5eaa3d72ff78f2259c6c4dcac1ba243),
  (0x12e4c7af, 0x12e4c7af5070c177abd547ae5fef1e44b38d89b958374486),
  (0x25c98f5e, 0x25c98f5ea0e182ef57aa8f5cbfde3c89671b1372b06e890c),
  (0x9f53007b, 0x9f53007b1962860f47a3db16bf02fa0c7ad396c097dc0459),
  (0x3ea600f6, 0x3ea600f632c50c1e8f47b62d7e05f418f5a72d812fb808b2),
  (0x7d4c01ec, 0x7d4c01ec658a183d1e8f6c5afc0be831eb4e5b025f701164),
  (0xfa9803d8, 0xfa9803d8cb14307a3d1ed8b5f817d063d69cb604bee022c8),
  (0xf53007b1, 0xf53007b1962860f47a3db16bf02fa0c7ad396c097dc04590),
  (0xea600f63, 0xea600f632c50c1e8f47b62d7e05f418f5a72d812fb808b20)]

/-- The rows of `crc_208` -/
def crc208Rows : List (Nat × Nat) := [
  (0x8ee7d4c0, 0x8ee7d4c01ec658a183d1e8f6c5afc0be831eb4e5b025f7011641),
  (0x93287d40, 0x93287d40234ae9e28472391b4ef041c38523dd2ed06e19033ac3),
  (0xa8b72e40, 0xa8b72e4058538b648b359ac0584f433989590eb810f9c50763c7),
  (0x516e5c80, 0x516e5c80b0a716c9166b3580b09e867312b21d7021f38a0ec78e),
  (0x2c3b6dc1, 0x2c3b6dc17f887533af0783f7a492cc58a67a8e05f3c2e31c995d),
  (0xd6910f42, 0xd6910f42e1d6b2c6dddeef198c8a580fcfeba8ee57a0313824fb),
  (0xad221e85, 0xad221e85c3ad658dbbbdde331914b01f9fd751dcaf40627049f6),
  (0xd4a3e9cb, 0xd4a3e9cb999c93baf4aa5490f786a081bcb0175ceea533e185ad),
  (0x27a00757, 0x27a007572dff7fd46a8541d72aa281bdfa7e9a5c6d6f90c21d1b),
  (0x4f400eae, 0x4f400eae5bfeffa8d50a83ae5545037bf4fd34b8dadf21843a36),
  (0x1067c99c, 0x1067c99ca93ba7f029c4efaa6f25c6496ae4dd94059bb409622d),
  (0xae2847f9, 0xae2847f94cb11741d05837a21be44c2c56d70fcdbb129f13d21b),
  (0xd2b75b32, 0xd2b75b3287a47622236187b2f26758e62eb0ab7ec600c926b277),
  (0xa56eb665, 0xa56eb6650f48ec4446c30f65e4ceb1cc5d6156fd8c01924d64ee),
  (0x4add6cca, 0x4add6cca1e91d8888d861ecbc99d6398bac2adfb1803249ac9dc),
  (0x95bad994, 0x95bad9943d23b1111b0c3d97933ac73175855bf63006493593b8),
  (0xa59267e8, 0xa59267e864813a83b5c993d9e3da4edc68140309d029656a3131),
  (0x4b24cfd0, 0x4b24cfd0c90275076b9327b3c7b49db8d0280613a052cad46262),
  (0x96499fa1, 0x96499fa19204ea0ed7264f678f693b71a0500c2740a595a8c4c4),
  (0x2c933f43, 0x2c933f432409d41dae4c9ecf1ed276e340a0184e814b2b518988),
  (0x59267e86, 0x59267e864813a83b5c993d9e3da4edc68140309d029656a31310),
  (0xb24cfd0c, 0xb24cfd0c90275076b9327b3c7b49db8d0280613a052cad462620),
  (0xea7e2ed9, 0xea7e2ed93e88f84cf1b51e8e333c77a4861e7691ba7cad8d5a01),
  (0x5a1b8972, 0x5a1b897263d7a83860bbd5eaa3d72ff78f2259c6c4dcac1ba243),
  (0xb43712e4, 0xb43712e4c7af5070c177abd547ae5fef1e44b38d89b958374486),
  (0x686e25c9, 0x686e25c98f5ea0e182ef57aa8f5cbfde3c89671b1372b06e890c),
  (0x5e3b9f53, 0x5e3b9f53007b1962860f47a3db16bf02fa0c7ad396c097dc0459),
  (0xbc773ea6, 0xbc773ea600f632c50c1e8f47b62d7e05f418f5a72d812fb808b2),
  (0x78ee7d4c, 0x78ee7d4c01ec658a183d1e8f6c5afc0be831eb4e5b025f701164),
  (0xf1dcfa98, 0xf1dcfa9803d8cb14307a3d1ed8b5f817d063d69cb604bee022c8),
  (0xe3b9f530, 0xe3b9f53007b1962860f47a3db16bf02fa0c7ad396c097dc04590),
  (0xc773ea60, 0xc773ea600f632c50c1e8f47b62d7e05f418f5a72d812fb808b20)]

/-- The rows of `crc_256` -/
def crc256Rows : List (Nat × Nat) := [
  (0x9108245d, 0x9108245d01578ee7d4c01ec658a183d1e8f6c5afc0be831eb4e5b025f7011641),
  (0xb3186ce7, 0xb3186ce703f893287d40234ae9e28472391b4ef041c38523dd2ed06e19033ac3),
  (0xf738fd93, 0xf738fd9306a6a8b72e4058538b648b359ac0584f433989590eb810f9c50763c7),
  (0xee71fb26, 0xee71fb260d4d516e5c80b0a716c9166b3580b09e867312b21d7021f38a0ec78e),
  (0x4debd211, 0x4debd2111bcd2c3b6dc17f887533af0783f7a492cc58a67a8e05f3c2e31c995d),
  (0xadf807f, 0xadf807f36cdd6910f42e1d6b2c6dddeef198c8a580fcfeba8ee57a0313824fb),
  (0x15bf00fe, 0x15bf00fe6d9bad221e85c3ad658dbbbdde331914b01f9fd751dcaf40627049f6),
  (0xba7625a1, 0xba7625a1da60d4a3e9cb999c93baf4aa5490f786a081bcb0175ceea533e185ad),
  (0xe5e46f1e, 0xe5e46f1eb59627a007572dff7fd46a8541d72aa281bdfa7e9a5c6d6f90c21d1b),
  (0xcbc8de3d, 0xcbc8de3d6b2c4f400eae5bfeffa8d50a83ae5545037bf4fd34b8dadf21843a36),
  (0x6999827, 0x6999827d70f1067c99ca93ba7f029c4efaa6f25c6496ae4dd94059bb409622d),
  (0x9c3b1412, 0x9c3b1412af49ae2847f94cb11741d05837a21be44c2c56d70fcdbb129f13d21b),
  (0xa97e0c78, 0xa97e0c785fc4d2b75b3287a47622236187b2f26758e62eb0ab7ec600c926b277),
  (0x52fc18f0, 0x52fc18f0bf89a56eb6650f48ec4446c30f65e4ceb1cc5d6156fd8c01924d64ee),
  (0xa5f831e1, 0xa5f831e17f134add6cca1e91d8888d861ecbc99d6398bac2adfb1803249ac9dc),
  (0x4bf063c2, 0x4bf063c2fe2695bad9943d23b1111b0c3d97933ac73175855bf63006493593b8),
  (0x6e8e3d8, 0x6e8e3d8fd1aa59267e864813a83b5c993d9e3da4edc68140309d029656a3131),
  (0xdd1c7b1, 0xdd1c7b1fa354b24cfd0c90275076b9327b3c7b49db8d0280613a052cad46262),
  (0x1ba38f63, 0x1ba38f63f46a96499fa19204ea0ed7264f678f693b71a0500c2740a595a8c4c4),
  (0x37471ec7, 0x37471ec7e8d52c933f432409d41dae4c9ecf1ed276e340a0184e814b2b518988),
  (0x6e8e3d8f, 0x6e8e3d8fd1aa59267e864813a83b5c993d9e3da4edc68140309d029656a31310),
  (0xdd1c7b1f, 0xdd1c7b1fa354b24cfd0c90275076b9327b3c7b49db8d0280613a052cad462620),
  (0x2b30d262, 0x2b30d26247feea7e2ed93e88f84cf1b51e8e333c77a4861e7691ba7cad8d5a01),
  (0xc7698099, 0xc76980998eaa5a1b897263d7a83860bbd5eaa3d72ff78f2259c6c4dcac1ba243),
  (0x8ed30133, 0x8ed301331d54b43712e4c7af5070c177abd547ae5fef1e44b38d89b958374486),
  (0x1da60266, 0x1da602663aa9686e25c98f5ea0e182ef57aa8f5cbfde3c89671b1372b06e890c),
  (0xaa442091, 0xaa44209174055e3b9f53007b1962860f47a3db16bf02fa0c7ad396c097dc0459),
  (0x54884122, 0x54884122e80abc773ea600f632c50c1e8f47b62d7e05f418f5a72d812fb808b2),
  (0xa9108245, 0xa9108245d01578ee7d4c01ec658a183d1e8f6c5afc0be831eb4e5b025f701164),
  (0x5221048b, 0x5221048ba02af1dcfa9803d8cb14307a3d1ed8b5f817d063d69cb604bee022c8),
  (0xa4420917, 0xa44209174055e3b9f53007b1962860f47a3db16bf02fa0c7ad396c097dc04590),
  (0x4884122e, 0x4884122e80abc773ea600f632c50c1e8f47b62d7e05f418f5a72d812fb808b20)]

/-- `crc_8` -/
def crc8 : BitVec 8 → BitVec 32 → BitVec 32 := crcOut crc8Rows

/-- `crc_16` -/
def crc16 : BitVec 16 → BitVec 32 → BitVec 32 := crcOut crc16Rows

/-- `crc_24` -/
def crc24 : BitVec 24 → BitVec 32 → BitVec 32 := crcOut crc24Rows

/-- `crc_32` -/
def crc32 : BitVec 32 → BitVec 32 → BitVec 32 := crcOut crc32Rows

/-- `crc_40` -/
def crc40 : BitVec 40 → BitVec 32 → BitVec 32 := crcOut crc40Rows

/-- `crc_48` -/
def crc48 : BitVec 48 → BitVec 32 → BitVec 32 := crcOut crc48Rows

/-- `crc_56` -/
def crc56 : BitVec 56 → BitVec 32 → BitVec 32 := crcOut crc56Rows

/-- `crc_64` -/
def crc64 : BitVec 64 → BitVec 32 → BitVec 32 := crcOut crc64Rows

/-- `crc_80` -/
def crc80 : BitVec 80 → BitVec 32 → BitVec 32 := crcOut crc80Rows

/-- `crc_128` -/
def crc128 : BitVec 128 → BitVec 32 → BitVec 32 := crcOut crc128Rows

/-- `crc_144` -/
def crc144 : BitVec 144 → BitVec 32 → BitVec 32 := crcOut crc144Rows

/-- `crc_192` -/
def crc192 : BitVec 192 → BitVec 32 → BitVec 32 := crcOut crc192Rows

/-- `crc_208` -/
def crc208 : BitVec 208 → BitVec 32 → BitVec 32 := crcOut crc208Rows

/-- `crc_256` -/
def crc256 : BitVec 256 → BitVec 32 → BitVec 32 := crcOut crc256Rows

/-! ## Bits of a vector -/

/-- The bits of a vector, the lowest one first -/
def bitsOf {w : Nat} (x : BitVec w) : List Bool := (List.range w).map x.getLsbD

@[simp] theorem length_bitsOf {w : Nat} (x : BitVec w) : (bitsOf x).length = w := by
  rw [bitsOf, List.length_map, List.length_range]

theorem bitsOf_inj {w : Nat} {x y : BitVec w} (h : bitsOf x = bitsOf y) : x = y := by
  apply BitVec.eq_of_getLsbD_eq
  intro i hi
  exact List.map_inj_left.mp h i (List.mem_range.mpr hi)

theorem bitsOf_vectorOf {w : Nat} (f : Nat → Bool) :
    bitsOf (vectorOf fun i : Fin w => f i) = (List.range w).map f :=
  List.map_congr_left fun _ hi => getLsbD_vectorOf _ (List.mem_range.mp hi)

/-! ## The bit-serial register -/

/-- `x^32 + x^26 + x^23 + x^22 + x^16 + x^12 + x^11 + x^10 + x^8 + x^7 + x^5 + x^4 + x^2 + x + 1` -/
def crcPoly : List Bool := bitsOf 0x04C11DB7#32

theorem length_crcPoly : crcPoly.length = 32 := length_bitsOf _

/-- The exclusive or of two rows -/
def xorRows (a b : Nat × Nat) : Nat × Nat := (a.1 ^^^ b.1, a.2 ^^^ b.2)

/-- The rows of the bit-serial register after `n` bits of data, the highest one first -/
def serialRows (n : Nat) : List (Nat × Nat) :=
  crcBits xorRows (0, 0) crcPoly ((List.range 32).map fun i => (2 ^ i, 0))
    ((List.range n).reverse.map fun j => (0, 2 ^ j))

theorem xorOf_xor (a b x : Nat) : ∀ n : Nat, xorOf n (a ^^^ b) x = (xorOf n a x ^^ xorOf n b x)
  | 0 => rfl
  | n + 1 => by
    have hswap : ∀ p q r s t : Bool,
        (((p ^^ q) && r) ^^ (s ^^ t)) = (((p && r) ^^ s) ^^ ((q && r) ^^ t)) := by decide
    rw [xorOf, xorOf, xorOf, xorOf_xor a b x n, Nat.testBit_xor, hswap]

theorem xorOf_zero (x : Nat) : ∀ n : Nat, xorOf n 0 x = false
  | 0 => rfl
  | n + 1 => by rw [xorOf, xorOf_zero x n, Nat.zero_testBit, Bool.false_and, Bool.xor_false]

theorem xorOf_two_pow (x i : Nat) : ∀ n : Nat, xorOf n (2 ^ i) x = (decide (i < n) && x.testBit i)
  | 0 => rfl
  | n + 1 => by
    rw [xorOf, xorOf_two_pow x i n, Nat.testBit_two_pow]
    by_cases hi : i = n
    · subst hi
      simp
    · have hlt : i < n + 1 ↔ i < n := by omega
      simp [hi, hlt]

/-- **A module with the rows of the bit-serial register is the bit-serial register.** -/
theorem bitsOf_crcOut {n : Nat} {rows : List (Nat × Nat)} (hrows : rows = serialRows n)
    (dataIn : BitVec n) (crcIn : BitVec 32) :
    bitsOf (crcOut rows dataIn crcIn) = checkBits crcPoly (bitsOf crcIn)
      (bitsOf dataIn).reverse := by
  let value : Nat × Nat → Bool := fun row =>
    xorOf 32 row.1 crcIn.toNat ^^ xorOf n row.2 dataIn.toNat
  have hxor : ∀ a b, value (xorRows a b) = (value a ^^ value b) := by
    intro a b
    have hswap : ∀ p q r s : Bool, ((p ^^ q) ^^ (r ^^ s)) = ((p ^^ r) ^^ (q ^^ s)) := by decide
    show (xorOf 32 (a.1 ^^^ b.1) _ ^^ xorOf n (a.2 ^^^ b.2) _) = _
    rw [xorOf_xor, xorOf_xor, hswap]
  have hzero : value (0, 0) = false := by
    show (xorOf 32 0 _ ^^ xorOf n 0 _) = false
    rw [xorOf_zero, xorOf_zero]
    rfl
  have hlen : rows.length = 32 := by
    rw [hrows, serialRows, length_crcBits _
      (by rw [List.length_map, List.length_range, length_crcPoly]),
      length_crcPoly]
  have hout : bitsOf (crcOut rows dataIn crcIn) = rows.map value := by
    rw [crcOut, bitsOf_vectorOf fun i => value (rows.getD i (0, 0)), ← hlen]
    apply List.ext_getElem (by simp)
    intro i h₁ h₂
    simp at h₂
    simp [List.getD_eq_getElem?_getD, h₂]
  have hregister : ((List.range 32).map fun i => (2 ^ i, 0)).map value = bitsOf crcIn := by
    rw [List.map_map]
    refine List.map_congr_left fun i hi => ?_
    show (xorOf 32 (2 ^ i) _ ^^ xorOf n 0 _) = _
    rw [xorOf_zero, xorOf_two_pow, Bool.xor_false, decide_eq_true (List.mem_range.mp hi),
      Bool.true_and]
    rfl
  have hdata : ((List.range n).reverse.map fun j => (0, 2 ^ j)).map value
    = (bitsOf dataIn).reverse := by
    rw [List.map_map, bitsOf, ← List.map_reverse]
    refine List.map_congr_left fun j hj => ?_
    show (xorOf 32 0 _ ^^ xorOf n (2 ^ j) _) = _
    rw [xorOf_zero, xorOf_two_pow, Bool.false_xor,
      decide_eq_true (List.mem_range.mp (List.mem_reverse.mp hj)), Bool.true_and]
    rfl
  rw [hout, hrows, serialRows, map_crcBits hxor hzero, hregister, hdata]

/-! ## All modules -/

/-- The rows of a module for `k` more bits of data -/
def moreRows (rows : List (Nat × Nat)) (k : Nat) : List (Nat × Nat) :=
  crcBits xorRows (0, 0) crcPoly (rows.map fun row => (row.1, row.2 <<< k))
    ((List.range k).reverse.map fun j => (0, 2 ^ j))

theorem moreRows_serialRows (n k : Nat) : moreRows (serialRows n) k = serialRows (n + k) := by
  let shift : Nat × Nat → Nat × Nat := fun row => (row.1, row.2 <<< k)
  have hxor : ∀ a b, shift (xorRows a b) = xorRows (shift a) (shift b) := by
    intro a b
    simp only [shift, xorRows, Nat.shiftLeft_xor_distrib]
  have hzero : shift (0, 0) = (0, 0) := by simp only [shift, Nat.zero_shiftLeft]
  have hregister : ((List.range 32).map fun i => (2 ^ i, 0)).map shift
    = (List.range 32).map fun i => (2 ^ i, 0) := by
    simp [shift, Function.comp_def]
  have hdata : ((List.range n).reverse.map fun j => (0, 2 ^ j)).map shift
      = ((List.range n).map (k + ·)).reverse.map fun j => (0, 2 ^ j) := by
    simp [shift, Function.comp_def, Nat.shiftLeft_eq, Nat.pow_add, Nat.mul_comm]
  rw [moreRows, serialRows, serialRows, Nat.add_comm n k, List.range_add, List.reverse_append,
    List.map_append, crcBits_append, map_crcBits (f := shift) hxor hzero, hregister, hdata]

/-- The rows of each module follow from those of the one before. -/
theorem rows_follow :
    crc8Rows = serialRows 8 ∧ ∀ m ∈ [(crc8Rows, 8, crc16Rows), (crc16Rows, 8, crc24Rows),
      (crc24Rows, 8, crc32Rows), (crc32Rows, 8, crc40Rows), (crc40Rows, 8, crc48Rows),
      (crc48Rows, 8, crc56Rows), (crc56Rows, 8, crc64Rows), (crc64Rows, 16, crc80Rows),
      (crc80Rows, 48, crc128Rows), (crc128Rows, 16, crc144Rows), (crc144Rows, 48, crc192Rows),
      (crc192Rows, 16, crc208Rows), (crc208Rows, 48, crc256Rows)],
      moreRows m.1 m.2.1 = m.2.2 := by
  decide +kernel

/-- One step further in the list of modules -/
theorem rows_step {rows rows' : List (Nat × Nat)} {n k : Nat} (h : rows = serialRows n)
    (hmore : moreRows rows k = rows') :
    rows' = serialRows (n + k) := by
  rw [← hmore, h, moreRows_serialRows]

theorem crc8Rows_eq : crc8Rows = serialRows 8 := rows_follow.1

theorem crc16Rows_eq : crc16Rows = serialRows 16 :=
  rows_step crc8Rows_eq (rows_follow.2 (crc8Rows, 8, crc16Rows) (by simp))

theorem crc24Rows_eq : crc24Rows = serialRows 24 :=
  rows_step crc16Rows_eq (rows_follow.2 (crc16Rows, 8, crc24Rows) (by simp))

theorem crc32Rows_eq : crc32Rows = serialRows 32 :=
  rows_step crc24Rows_eq (rows_follow.2 (crc24Rows, 8, crc32Rows) (by simp))

theorem crc40Rows_eq : crc40Rows = serialRows 40 :=
  rows_step crc32Rows_eq (rows_follow.2 (crc32Rows, 8, crc40Rows) (by simp))

theorem crc48Rows_eq : crc48Rows = serialRows 48 :=
  rows_step crc40Rows_eq (rows_follow.2 (crc40Rows, 8, crc48Rows) (by simp))

theorem crc56Rows_eq : crc56Rows = serialRows 56 :=
  rows_step crc48Rows_eq (rows_follow.2 (crc48Rows, 8, crc56Rows) (by simp))

theorem crc64Rows_eq : crc64Rows = serialRows 64 :=
  rows_step crc56Rows_eq (rows_follow.2 (crc56Rows, 8, crc64Rows) (by simp))

theorem crc80Rows_eq : crc80Rows = serialRows 80 :=
  rows_step crc64Rows_eq (rows_follow.2 (crc64Rows, 16, crc80Rows) (by simp))

theorem crc128Rows_eq : crc128Rows = serialRows 128 :=
  rows_step crc80Rows_eq (rows_follow.2 (crc80Rows, 48, crc128Rows) (by simp))

theorem crc144Rows_eq : crc144Rows = serialRows 144 :=
  rows_step crc128Rows_eq (rows_follow.2 (crc128Rows, 16, crc144Rows) (by simp))

theorem crc192Rows_eq : crc192Rows = serialRows 192 :=
  rows_step crc144Rows_eq (rows_follow.2 (crc144Rows, 48, crc192Rows) (by simp))

theorem crc208Rows_eq : crc208Rows = serialRows 208 :=
  rows_step crc192Rows_eq (rows_follow.2 (crc192Rows, 16, crc208Rows) (by simp))

theorem crc256Rows_eq : crc256Rows = serialRows 256 :=
  rows_step crc208Rows_eq (rows_follow.2 (crc208Rows, 48, crc256Rows) (by simp))

/-- The modules of `ska_mac_tx_crc` and `ska_mac_rx_crc_multi`, with their widths -/
def crcModules : List ((n : Nat) × (BitVec n → BitVec 32 → BitVec 32)) := [
  ⟨8, crc8⟩, ⟨16, crc16⟩, ⟨24, crc24⟩, ⟨32, crc32⟩, ⟨40, crc40⟩, ⟨48, crc48⟩, ⟨56, crc56⟩,
  ⟨64, crc64⟩, ⟨80, crc80⟩, ⟨128, crc128⟩, ⟨144, crc144⟩, ⟨192, crc192⟩, ⟨208, crc208⟩,
  ⟨256, crc256⟩]

/-- The modules are the bit-serial register. -/
theorem bitsOf_crcModules : ∀ m ∈ crcModules, ∀ (dataIn : BitVec m.1) (crcIn : BitVec 32),
    bitsOf (m.2 dataIn crcIn) = checkBits crcPoly (bitsOf crcIn) (bitsOf dataIn).reverse := by
  intro m hm
  simp only [crcModules, List.mem_cons, List.not_mem_nil, or_false] at hm
  rcases hm with rfl | rfl | rfl | rfl | rfl | rfl | rfl | rfl | rfl | rfl | rfl | rfl | rfl | rfl
  · exact bitsOf_crcOut crc8Rows_eq
  · exact bitsOf_crcOut crc16Rows_eq
  · exact bitsOf_crcOut crc24Rows_eq
  · exact bitsOf_crcOut crc32Rows_eq
  · exact bitsOf_crcOut crc40Rows_eq
  · exact bitsOf_crcOut crc48Rows_eq
  · exact bitsOf_crcOut crc56Rows_eq
  · exact bitsOf_crcOut crc64Rows_eq
  · exact bitsOf_crcOut crc80Rows_eq
  · exact bitsOf_crcOut crc128Rows_eq
  · exact bitsOf_crcOut crc144Rows_eq
  · exact bitsOf_crcOut crc192Rows_eq
  · exact bitsOf_crcOut crc208Rows_eq
  · exact bitsOf_crcOut crc256Rows_eq

/-- `lfsr(31:0)`, the generator of Ethernet -/
noncomputable def lfsr :
    (ZMod 2)[X] := X ^ 32 + X ^ 26 + X ^ 23 + X ^ 22 + X ^ 16 + X ^ 12 + X ^ 11 + X ^ 10
  + X ^ 8 + X ^ 7 + X ^ 5 + X ^ 4 + X ^ 2 + X + 1

theorem generator_crcPoly : generator crcPoly = lfsr := by
  have hbits : crcPoly = [true, true, true, false, true, true, false, true, true, false, true, true,
    true, false, false, false, true, false, false, false, false, false, true, true, false, false,
    true, false, false, false, false, false] := by decide
  rw [generator, length_crcPoly, hbits, lfsr]
  simp only [polyOf, Bool.false_eq_true, if_true, if_false, C_0, C_1]
  ring

/-- **Each module divides by the same polynomial**: what it puts out is the remainder of the
register and the data, as coefficients of a polynomial. -/
theorem crcModules_remainder {m : (n : Nat) × (BitVec n → BitVec 32 → BitVec 32)}
    (hm : m ∈ crcModules) (dataIn : BitVec m.1) (crcIn : BitVec 32) :
    polyOf (bitsOf (m.2 dataIn crcIn))
      = (X ^ m.1 * polyOf (bitsOf crcIn) + X ^ 32 * polyOf (bitsOf dataIn)) %ₘ lfsr := by
  have hne : crcPoly ≠ [] := List.ne_nil_of_length_pos (by rw [length_crcPoly]; decide)
  rw [bitsOf_crcModules m hm, polyOf_checkBits hne _ (by rw [length_bitsOf, length_crcPoly]),
    generator_crcPoly, length_crcPoly, List.reverse_reverse, List.length_reverse, length_bitsOf]

theorem crcModules_remainder_byte : polyOf (bitsOf (crc8 0x80 0xffffffff))
    = (X ^ 8 * polyOf (bitsOf 0xffffffff#32) + X ^ 32 * polyOf (bitsOf 0x80#8)) %ₘ lfsr :=
  crcModules_remainder (m := ⟨8, crc8⟩) List.mem_cons_self 0x80 0xffffffff

end MlibDevel.FortyGbe
