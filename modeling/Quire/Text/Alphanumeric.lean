import Quire.Text.Word

/-!
# Letters and numerals

A character is alphanumeric when Unicode, by its version 17, counts it as alphabetic or as a
numeral of any kind. Beside word characters these are the numerals that are no decimal digits,
such as fractions, and the letters that are younger than the class of word characters; the marks,
joiners and connecting punctuation that are word characters only are not among them.
-/

namespace Quire.Text

/-- The edges of the numerals and young letters above ASCII that are no word characters. -/
def numeralBands : List Nat :=
   [0xb2, 0xb4, 0xb9, 0xba, 0xbc, 0xbf, 0x88f, 0x890, 0x9f4, 0x9fa, 0xb72, 0xb78, 0xbf0, 0xbf3,
    0xc5c, 0xc5d, 0xc78, 0xc7f, 0xcdc, 0xcdd, 0xd58, 0xd5f, 0xd70, 0xd79, 0xf2a, 0xf34, 0x1369,
    0x137d, 0x17f0, 0x17fa, 0x19da, 0x19db, 0x2070, 0x2071, 0x2074, 0x207a, 0x2080, 0x208a, 0x2150,
    0x2160, 0x2189, 0x218a, 0x2460, 0x249c, 0x24ea, 0x2500, 0x2776, 0x2794, 0x2cfd, 0x2cfe, 0x3192,
    0x3196, 0x3220, 0x322a, 0x3248, 0x3250, 0x3251, 0x3260, 0x3280, 0x328a, 0x32b1, 0x32c0, 0xa7ce,
    0xa7d0, 0xa7d2, 0xa7d3, 0xa7d4, 0xa7d5, 0xa7f1, 0xa7f2, 0xa830, 0xa836, 0x10107, 0x10134,
    0x10175, 0x10179, 0x1018a, 0x1018c, 0x102e1, 0x102fc, 0x10320, 0x10324, 0x10858, 0x10860,
    0x10879, 0x10880, 0x108a7, 0x108b0, 0x108fb, 0x10900, 0x10916, 0x1091c, 0x10940, 0x1095a,
    0x109bc, 0x109be, 0x109c0, 0x109d0, 0x109d2, 0x10a00, 0x10a40, 0x10a49, 0x10a7d, 0x10a7f,
    0x10a9d, 0x10aa0, 0x10aeb, 0x10af0, 0x10b58, 0x10b60, 0x10b78, 0x10b80, 0x10ba9, 0x10bb0,
    0x10cfa, 0x10d00, 0x10e60, 0x10e7f, 0x10ec5, 0x10ec8, 0x10efa, 0x10efc, 0x10f1d, 0x10f27,
    0x10f51, 0x10f55, 0x10fc5, 0x10fcc, 0x11052, 0x11066, 0x111e1, 0x111f5, 0x1173a, 0x1173c,
    0x118ea, 0x118f3, 0x11b60, 0x11b68, 0x11c5a, 0x11c6d, 0x11db0, 0x11ddc, 0x11de0, 0x11dea,
    0x11fc0, 0x11fd5, 0x16b5b, 0x16b62, 0x16e80, 0x16e97, 0x16ea0, 0x16eb9, 0x16ebb, 0x16ed4,
    0x16ff2, 0x16ff7, 0x187f8, 0x18800, 0x18d09, 0x18d1f, 0x18d80, 0x18df3, 0x1d2c0, 0x1d2d4,
    0x1d2e0, 0x1d2f4, 0x1d360, 0x1d379, 0x1e6c0, 0x1e6df, 0x1e6e0, 0x1e6f6, 0x1e6fe, 0x1e700,
    0x1e8c7, 0x1e8d0, 0x1ec71, 0x1ecac, 0x1ecad, 0x1ecb0, 0x1ecb1, 0x1ecb5, 0x1ed01, 0x1ed2e,
    0x1ed2f, 0x1ed3e, 0x1f100, 0x1f10d, 0x2b73a, 0x2b740, 0x2cea2, 0x2ceae, 0x323b0, 0x3347a]

/-- The edges of the word characters above ASCII that are neither alphabetic nor numerals. -/
def connectorBands : List Nat :=
   [0x300, 0x345, 0x346, 0x363, 0x483, 0x48a, 0x591, 0x5b0, 0x658, 0x659, 0x6df, 0x6e1, 0x6ea,
    0x6ed, 0x740, 0x74b, 0x7eb, 0x7f4, 0x7fd, 0x7fe, 0x818, 0x81a, 0x82d, 0x82e, 0x859, 0x85c,
    0x898, 0x8a0, 0x8ca, 0x8d4, 0x8e0, 0x8e2, 0x8ea, 0x8f0, 0x93c, 0x93d, 0x94d, 0x94e, 0x951,
    0x955, 0x9bc, 0x9bd, 0x9cd, 0x9ce, 0x9fe, 0x9ff, 0xa3c, 0xa3d, 0xa4d, 0xa4e, 0xabc, 0xabd,
    0xacd, 0xace, 0xafd, 0xb00, 0xb3c, 0xb3d, 0xb4d, 0xb4e, 0xb55, 0xb56, 0xbcd, 0xbce, 0xc3c,
    0xc3d, 0xc4d, 0xc4e, 0xcbc, 0xcbd, 0xccd, 0xcce, 0xd3b, 0xd3d, 0xd4d, 0xd4e, 0xdca, 0xdcb,
    0xe47, 0xe4d, 0xe4e, 0xe4f, 0xeba, 0xebb, 0xec8, 0xecd, 0xece, 0xecf, 0xf18, 0xf1a, 0xf35,
    0xf36, 0xf37, 0xf38, 0xf39, 0xf3a, 0xf3e, 0xf40, 0xf84, 0xf85, 0xf86, 0xf88, 0xfc6, 0xfc7,
    0x1037, 0x1038, 0x1039, 0x103b, 0x135d, 0x1360, 0x1714, 0x1716, 0x1734, 0x1735, 0x17b4, 0x17b6,
    0x17c9, 0x17d4, 0x17dd, 0x17de, 0x180b, 0x180e, 0x180f, 0x1810, 0x1939, 0x193c, 0x1a60, 0x1a61,
    0x1a75, 0x1a7d, 0x1a7f, 0x1a80, 0x1ab0, 0x1abf, 0x1ac1, 0x1acc, 0x1b34, 0x1b35, 0x1b44, 0x1b45,
    0x1b6b, 0x1b74, 0x1baa, 0x1bac, 0x1be6, 0x1be7, 0x1bf2, 0x1bf4, 0x1c37, 0x1c38, 0x1cd0, 0x1cd3,
    0x1cd4, 0x1ce9, 0x1ced, 0x1cee, 0x1cf4, 0x1cf5, 0x1cf7, 0x1cfa, 0x1dc0, 0x1dd3, 0x1df5, 0x1e00,
    0x200c, 0x200e, 0x203f, 0x2041, 0x2054, 0x2055, 0x20d0, 0x20f1, 0x2cef, 0x2cf2, 0x2d7f, 0x2d80,
    0x302a, 0x3030, 0x3099, 0x309b, 0xa66f, 0xa673, 0xa67c, 0xa67e, 0xa6f0, 0xa6f2, 0xa806, 0xa807,
    0xa82c, 0xa82d, 0xa8c4, 0xa8c5, 0xa8e0, 0xa8f2, 0xa92b, 0xa92e, 0xa953, 0xa954, 0xa9b3, 0xa9b4,
    0xa9c0, 0xa9c1, 0xaabf, 0xaac0, 0xaac1, 0xaac2, 0xaaf6, 0xaaf7, 0xabec, 0xabee, 0xfe00, 0xfe10,
    0xfe20, 0xfe30, 0xfe33, 0xfe35, 0xfe4d, 0xfe50, 0xff3f, 0xff40, 0x101fd, 0x101fe, 0x102e0,
    0x102e1, 0x10a38, 0x10a3b, 0x10a3f, 0x10a40, 0x10ae5, 0x10ae7, 0x10d6a, 0x10d6e, 0x10efd,
    0x10f00, 0x10f46, 0x10f51, 0x10f82, 0x10f86, 0x11046, 0x11047, 0x11070, 0x11071, 0x1107f,
    0x11080, 0x110b9, 0x110bb, 0x11133, 0x11135, 0x11173, 0x11174, 0x111c0, 0x111c1, 0x111c9,
    0x111cd, 0x11235, 0x11237, 0x112e9, 0x112eb, 0x1133b, 0x1133d, 0x1134d, 0x1134e, 0x11366,
    0x1136d, 0x11370, 0x11375, 0x113ce, 0x113d1, 0x113d2, 0x113d3, 0x113e1, 0x113e3, 0x11442,
    0x11443, 0x11446, 0x11447, 0x1145e, 0x1145f, 0x114c2, 0x114c4, 0x115bf, 0x115c1, 0x1163f,
    0x11640, 0x116b6, 0x116b8, 0x1172b, 0x1172c, 0x11839, 0x1183b, 0x1193d, 0x1193f, 0x11943,
    0x11944, 0x119e0, 0x119e1, 0x11a33, 0x11a35, 0x11a47, 0x11a48, 0x11a98, 0x11a9a, 0x11c3f,
    0x11c40, 0x11d42, 0x11d43, 0x11d44, 0x11d46, 0x11d97, 0x11d98, 0x11f41, 0x11f43, 0x11f5a,
    0x11f5b, 0x13440, 0x13441, 0x13447, 0x13456, 0x1612f, 0x16130, 0x16af0, 0x16af5, 0x16b30,
    0x16b37, 0x16fe4, 0x16fe5, 0x1bc9d, 0x1bc9e, 0x1cf00, 0x1cf2e, 0x1cf30, 0x1cf47, 0x1d165,
    0x1d16a, 0x1d16d, 0x1d173, 0x1d17b, 0x1d183, 0x1d185, 0x1d18c, 0x1d1aa, 0x1d1ae, 0x1d242,
    0x1d245, 0x1da00, 0x1da37, 0x1da3b, 0x1da6d, 0x1da75, 0x1da76, 0x1da84, 0x1da85, 0x1da9b,
    0x1daa0, 0x1daa1, 0x1dab0, 0x1e130, 0x1e137, 0x1e2ae, 0x1e2af, 0x1e2ec, 0x1e2f0, 0x1e4ec,
    0x1e4f0, 0x1e5ee, 0x1e5f0, 0x1e8d0, 0x1e8d7, 0x1e944, 0x1e947, 0x1e948, 0x1e94b, 0xe0100,
    0xe01f0]

/-- Whether a character is alphabetic or a numeral. -/
def isAlphanumeric (c : Char) : Bool :=
  if c.toNat < 0x80 then c.isAlphanum
  else (isWord c && !inBands connectorBands c.toNat) || inBands numeralBands c.toNat

/-- Of the ASCII characters the letters and digits are alphanumeric. -/
theorem isAlphanumeric_of_ascii {c : Char} (h : c.toNat < 0x80) :
    isAlphanumeric c = c.isAlphanum := by
  simp [isAlphanumeric, h]

end Quire.Text
