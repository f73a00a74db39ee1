/-!
# Colors

The picture unit puts out one of 64 colors. A pixel is the word `RRGGBBAA`.
-/

namespace Nes.Color

/-- The colors as `RRGGBB`. -/
def hardware : Vector UInt32 64 := #v[
  0x666666, 0x002A88, 0x1412A7, 0x3B00A4, 0x5C007E, 0x6E0040, 0x6C0600, 0x561D00,
  0x333500, 0x0B4800, 0x005200, 0x004F08, 0x00404D, 0x000000, 0x000000, 0x000000,
  0xADADAD, 0x155FD9, 0x4240FF, 0x7527FE, 0xA01ACC, 0xB71E7B, 0xB53120, 0x994E00,
  0x6B6D00, 0x388700, 0x0C9300, 0x008F32, 0x007C8D, 0x000000, 0x000000, 0x000000,
  0xFFFEFF, 0x64B0FF, 0x9290FF, 0xC676FF, 0xF36AFF, 0xFE6ECC, 0xFE8170, 0xEA9E22,
  0xBCBE00, 0x88D800, 0x5CE430, 0x45E082, 0x48CDDE, 0x4F4F4F, 0x000000, 0x000000,
  0xFFFEFF, 0xC0DFFF, 0xD3D2FF, 0xE8C8FF, 0xFBC2FF, 0xFEC4EA, 0xFECCC5, 0xF7D8A5,
  0xE4E594, 0xCFEF96, 0xBDF4AB, 0xB3F3CC, 0xB5EBF2, 0xB8B8B8, 0x000000, 0x000000]

/-- A color as an opaque pixel (`rgba`). Only six bits of the index count. -/
def pixel (index : UInt8) : UInt32 := hardware[Fin.ofNat 64 index.toNat] <<< 8 ||| 0xFF

/-- The pixels of the sixteen background colors, from the entries of a palette (`snapshot`). The
    first of every group of four is the backdrop, entry 0. An entry that is missing gives a
    transparent pixel. -/
def background (entries : Array UInt8) : Vector UInt32 16 :=
  Vector.ofFn fun i =>
    let entry := if i.val % 4 = 0 then 0 else i.val
    (entries[entry]?.map pixel).getD 0

end Nes.Color
