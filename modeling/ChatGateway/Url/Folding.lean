/-!
# Folding of names

Capitals and small letters name the same host, and so do the wide and the narrow form of a
character. Each character of a name is replaced by the one that stands for all its forms. Characters
that fold into several are left as they are, and so are the compatibility forms of Han and Arabic.
-/

namespace ChatGateway.Url

/-- Ranges of characters: the first, the last, the step between them and what the first folds into;
the others follow in the same order. -/
def foldings : List (Nat × Nat × Nat × Nat) := [
  (0xAA, 0xAA, 2, 0x61), (0xB2, 0xB3, 1, 0x32), (0xB5, 0xB5, 2, 0x3BC), (0xB9, 0xB9, 2, 0x31),
  (0xBA, 0xBA, 2, 0x6F), (0xC0, 0xD6, 1, 0xE0), (0xD8, 0xDE, 1, 0xF8), (0x100, 0x12E, 2, 0x101),
  (0x134, 0x136, 2, 0x135), (0x139, 0x13D, 2, 0x13A), (0x141, 0x147, 2, 0x142),
  (0x14A, 0x176, 2, 0x14B), (0x178, 0x178, 2, 0xFF), (0x179, 0x17D, 2, 0x17A),
  (0x17F, 0x17F, 2, 0x73), (0x181, 0x181, 2, 0x253), (0x182, 0x184, 2, 0x183),
  (0x186, 0x186, 2, 0x254), (0x187, 0x187, 2, 0x188), (0x189, 0x18A, 1, 0x256),
  (0x18B, 0x18B, 2, 0x18C), (0x18E, 0x18E, 2, 0x1DD), (0x18F, 0x18F, 2, 0x259),
  (0x190, 0x190, 2, 0x25B), (0x191, 0x191, 2, 0x192), (0x193, 0x193, 2, 0x260),
  (0x194, 0x194, 2, 0x263), (0x196, 0x196, 2, 0x269), (0x197, 0x197, 2, 0x268),
  (0x198, 0x198, 2, 0x199), (0x19C, 0x19C, 2, 0x26F), (0x19D, 0x19D, 2, 0x272),
  (0x19F, 0x19F, 2, 0x275), (0x1A0, 0x1A4, 2, 0x1A1), (0x1A6, 0x1A6, 2, 0x280),
  (0x1A7, 0x1A7, 2, 0x1A8), (0x1A9, 0x1A9, 2, 0x283), (0x1AC, 0x1AC, 2, 0x1AD),
  (0x1AE, 0x1AE, 2, 0x288), (0x1AF, 0x1AF, 2, 0x1B0), (0x1B1, 0x1B2, 1, 0x28A),
  (0x1B3, 0x1B5, 2, 0x1B4), (0x1B7, 0x1B7, 2, 0x292), (0x1B8, 0x1B8, 2, 0x1B9),
  (0x1BC, 0x1BC, 2, 0x1BD), (0x1CD, 0x1DB, 2, 0x1CE), (0x1DE, 0x1EE, 2, 0x1DF),
  (0x1F4, 0x1F4, 2, 0x1F5), (0x1F6, 0x1F6, 2, 0x195), (0x1F7, 0x1F7, 2, 0x1BF),
  (0x1F8, 0x21E, 2, 0x1F9), (0x220, 0x220, 2, 0x19E), (0x222, 0x232, 2, 0x223),
  (0x23A, 0x23A, 2, 0x2C65), (0x23B, 0x23B, 2, 0x23C), (0x23D, 0x23D, 2, 0x19A),
  (0x23E, 0x23E, 2, 0x2C66), (0x241, 0x241, 2, 0x242), (0x243, 0x243, 2, 0x180),
  (0x244, 0x244, 2, 0x289), (0x245, 0x245, 2, 0x28C), (0x246, 0x24E, 2, 0x247),
  (0x2B0, 0x2B2, 2, 0x68), (0x2B1, 0x2B1, 2, 0x266), (0x2B3, 0x2B3, 2, 0x72),
  (0x2B4, 0x2B4, 2, 0x279), (0x2B5, 0x2B5, 2, 0x27B), (0x2B6, 0x2B6, 2, 0x281),
  (0x2B7, 0x2B7, 2, 0x77), (0x2B8, 0x2B8, 2, 0x79), (0x2E0, 0x2E0, 2, 0x263),
  (0x2E1, 0x2E1, 2, 0x6C), (0x2E2, 0x2E2, 2, 0x73), (0x2E3, 0x2E3, 2, 0x78),
  (0x2E4, 0x2E4, 2, 0x295), (0x343, 0x343, 2, 0x313), (0x345, 0x345, 2, 0x3B9),
  (0x370, 0x372, 2, 0x371), (0x374, 0x374, 2, 0x2B9), (0x376, 0x376, 2, 0x377),
  (0x37E, 0x37E, 2, 0x3B), (0x37F, 0x37F, 2, 0x3F3), (0x386, 0x386, 2, 0x3AC),
  (0x387, 0x387, 2, 0xB7), (0x388, 0x38A, 1, 0x3AD), (0x38C, 0x38C, 2, 0x3CC),
  (0x38E, 0x38F, 1, 0x3CD), (0x391, 0x3A1, 1, 0x3B1), (0x3A3, 0x3AB, 1, 0x3C3),
  (0x3CF, 0x3CF, 2, 0x3D7), (0x3D0, 0x3D0, 2, 0x3B2), (0x3D1, 0x3D1, 2, 0x3B8),
  (0x3D2, 0x3D2, 2, 0x3C5), (0x3D3, 0x3D3, 2, 0x3CD), (0x3D4, 0x3D4, 2, 0x3CB),
  (0x3D5, 0x3D5, 2, 0x3C6), (0x3D6, 0x3D6, 2, 0x3C0), (0x3D8, 0x3EE, 2, 0x3D9),
  (0x3F0, 0x3F0, 2, 0x3BA), (0x3F1, 0x3F1, 2, 0x3C1), (0x3F2, 0x3F2, 2, 0x3C3),
  (0x3F4, 0x3F4, 2, 0x3B8), (0x3F5, 0x3F5, 2, 0x3B5), (0x3F7, 0x3F7, 2, 0x3F8),
  (0x3F9, 0x3F9, 2, 0x3C3), (0x3FA, 0x3FA, 2, 0x3FB), (0x3FD, 0x3FF, 1, 0x37B),
  (0x400, 0x40F, 1, 0x450), (0x410, 0x42F, 1, 0x430), (0x460, 0x480, 2, 0x461),
  (0x48A, 0x4BE, 2, 0x48B), (0x4C1, 0x4CD, 2, 0x4C2), (0x4D0, 0x52E, 2, 0x4D1),
  (0x531, 0x556, 1, 0x561), (0xF0C, 0xF0C, 2, 0xF0B), (0x10C7, 0x10C7, 2, 0x2D27),
  (0x10CD, 0x10CD, 2, 0x2D2D), (0x10FC, 0x10FC, 2, 0x10DC), (0x13F8, 0x13FD, 1, 0x13F0),
  (0x1C80, 0x1C80, 2, 0x432), (0x1C81, 0x1C81, 2, 0x434), (0x1C82, 0x1C82, 2, 0x43E),
  (0x1C83, 0x1C84, 1, 0x441), (0x1C85, 0x1C85, 2, 0x442), (0x1C86, 0x1C86, 2, 0x44A),
  (0x1C87, 0x1C87, 2, 0x463), (0x1C88, 0x1C88, 2, 0xA64B), (0x1C90, 0x1CBA, 1, 0x10D0),
  (0x1CBD, 0x1CBF, 1, 0x10FD), (0x1D2C, 0x1D2C, 2, 0x61), (0x1D2D, 0x1D2D, 2, 0xE6),
  (0x1D2E, 0x1D30, 2, 0x62), (0x1D31, 0x1D39, 2, 0x65), (0x1D32, 0x1D32, 2, 0x1DD),
  (0x1D34, 0x1D3A, 2, 0x68), (0x1D3C, 0x1D3C, 2, 0x6F), (0x1D3D, 0x1D3D, 2, 0x223),
  (0x1D3E, 0x1D3E, 2, 0x70), (0x1D3F, 0x1D3F, 2, 0x72), (0x1D40, 0x1D41, 1, 0x74),
  (0x1D42, 0x1D42, 2, 0x77), (0x1D43, 0x1D43, 2, 0x61), (0x1D44, 0x1D45, 1, 0x250),
  (0x1D46, 0x1D46, 2, 0x1D02), (0x1D47, 0x1D47, 2, 0x62), (0x1D48, 0x1D49, 1, 0x64),
  (0x1D4A, 0x1D4A, 2, 0x259), (0x1D4B, 0x1D4C, 1, 0x25B), (0x1D4D, 0x1D4D, 2, 0x67),
  (0x1D4F, 0x1D4F, 2, 0x6B), (0x1D50, 0x1D52, 2, 0x6D), (0x1D51, 0x1D51, 2, 0x14B),
  (0x1D53, 0x1D53, 2, 0x254), (0x1D54, 0x1D55, 1, 0x1D16), (0x1D56, 0x1D56, 2, 0x70),
  (0x1D57, 0x1D58, 1, 0x74), (0x1D59, 0x1D59, 2, 0x1D1D), (0x1D5A, 0x1D5A, 2, 0x26F),
  (0x1D5B, 0x1D5B, 2, 0x76), (0x1D5C, 0x1D5C, 2, 0x1D25), (0x1D5D, 0x1D5F, 1, 0x3B2),
  (0x1D60, 0x1D61, 1, 0x3C6), (0x1D62, 0x1D62, 2, 0x69), (0x1D63, 0x1D63, 2, 0x72),
  (0x1D64, 0x1D65, 1, 0x75), (0x1D66, 0x1D67, 1, 0x3B2), (0x1D68, 0x1D68, 2, 0x3C1),
  (0x1D69, 0x1D6A, 1, 0x3C6), (0x1D78, 0x1D78, 2, 0x43D), (0x1D9B, 0x1D9B, 2, 0x252),
  (0x1D9C, 0x1D9C, 2, 0x63), (0x1D9D, 0x1D9D, 2, 0x255), (0x1D9E, 0x1D9E, 2, 0xF0),
  (0x1D9F, 0x1D9F, 2, 0x25C), (0x1DA0, 0x1DA0, 2, 0x66), (0x1DA1, 0x1DA1, 2, 0x25F),
  (0x1DA2, 0x1DA2, 2, 0x261), (0x1DA3, 0x1DA3, 2, 0x265), (0x1DA4, 0x1DA6, 1, 0x268),
  (0x1DA7, 0x1DA7, 2, 0x1D7B), (0x1DA8, 0x1DA8, 2, 0x29D), (0x1DA9, 0x1DA9, 2, 0x26D),
  (0x1DAA, 0x1DAA, 2, 0x1D85), (0x1DAB, 0x1DAB, 2, 0x29F), (0x1DAC, 0x1DAC, 2, 0x271),
  (0x1DAD, 0x1DAD, 2, 0x270), (0x1DAE, 0x1DB1, 1, 0x272), (0x1DB2, 0x1DB2, 2, 0x278),
  (0x1DB3, 0x1DB4, 1, 0x282), (0x1DB5, 0x1DB5, 2, 0x1AB), (0x1DB6, 0x1DB7, 1, 0x289),
  (0x1DB8, 0x1DB8, 2, 0x1D1C), (0x1DB9, 0x1DBA, 1, 0x28B), (0x1DBB, 0x1DBB, 2, 0x7A),
  (0x1DBC, 0x1DBE, 1, 0x290), (0x1DBF, 0x1DBF, 2, 0x3B8), (0x1E00, 0x1E94, 2, 0x1E01),
  (0x1E9B, 0x1E9B, 2, 0x1E61), (0x1EA0, 0x1EFE, 2, 0x1EA1), (0x1F08, 0x1F0F, 1, 0x1F00),
  (0x1F18, 0x1F1D, 1, 0x1F10), (0x1F28, 0x1F2F, 1, 0x1F20), (0x1F38, 0x1F3F, 1, 0x1F30),
  (0x1F48, 0x1F4D, 1, 0x1F40), (0x1F59, 0x1F5F, 2, 0x1F51), (0x1F68, 0x1F6F, 1, 0x1F60),
  (0x1F71, 0x1F71, 2, 0x3AC), (0x1F73, 0x1F73, 2, 0x3AD), (0x1F75, 0x1F75, 2, 0x3AE),
  (0x1F77, 0x1F77, 2, 0x3AF), (0x1F79, 0x1F79, 2, 0x3CC), (0x1F7B, 0x1F7B, 2, 0x3CD),
  (0x1F7D, 0x1F7D, 2, 0x3CE), (0x1FB8, 0x1FB9, 1, 0x1FB0), (0x1FBA, 0x1FBA, 2, 0x1F70),
  (0x1FBB, 0x1FBB, 2, 0x3AC), (0x1FBE, 0x1FBE, 2, 0x3B9), (0x1FC8, 0x1FCA, 2, 0x1F72),
  (0x1FC9, 0x1FC9, 2, 0x3AD), (0x1FCB, 0x1FCB, 2, 0x3AE), (0x1FD3, 0x1FD3, 2, 0x390),
  (0x1FD8, 0x1FD9, 1, 0x1FD0), (0x1FDA, 0x1FDA, 2, 0x1F76), (0x1FDB, 0x1FDB, 2, 0x3AF),
  (0x1FE3, 0x1FE3, 2, 0x3B0), (0x1FE8, 0x1FE9, 1, 0x1FE0), (0x1FEA, 0x1FEA, 2, 0x1F7A),
  (0x1FEB, 0x1FEB, 2, 0x3CD), (0x1FEC, 0x1FEC, 2, 0x1FE5), (0x1FEF, 0x1FEF, 2, 0x60),
  (0x1FF8, 0x1FF8, 2, 0x1F78), (0x1FF9, 0x1FFB, 2, 0x3CC), (0x1FFA, 0x1FFA, 2, 0x1F7C),
  (0x2011, 0x2011, 2, 0x2010), (0x2070, 0x2070, 2, 0x30), (0x2071, 0x2071, 2, 0x69),
  (0x2074, 0x2079, 1, 0x34), (0x207A, 0x207A, 2, 0x2B), (0x207B, 0x207B, 2, 0x2212),
  (0x207C, 0x207C, 2, 0x3D), (0x207D, 0x207E, 1, 0x28), (0x207F, 0x207F, 2, 0x6E),
  (0x2080, 0x2089, 1, 0x30), (0x208A, 0x208A, 2, 0x2B), (0x208B, 0x208B, 2, 0x2212),
  (0x208C, 0x208C, 2, 0x3D), (0x208D, 0x208E, 1, 0x28), (0x2090, 0x2090, 2, 0x61),
  (0x2091, 0x2091, 2, 0x65), (0x2092, 0x2092, 2, 0x6F), (0x2093, 0x2093, 2, 0x78),
  (0x2094, 0x2094, 2, 0x259), (0x2095, 0x2095, 2, 0x68), (0x2096, 0x2099, 1, 0x6B),
  (0x209A, 0x209A, 2, 0x70), (0x209B, 0x209C, 1, 0x73), (0x2102, 0x2102, 2, 0x63),
  (0x2107, 0x2107, 2, 0x25B), (0x210A, 0x210B, 1, 0x67), (0x210C, 0x210C, 2, 0x68),
  (0x210D, 0x210D, 2, 0x68), (0x210E, 0x210E, 2, 0x68), (0x210F, 0x210F, 2, 0x127),
  (0x2110, 0x2110, 2, 0x69), (0x2111, 0x2111, 2, 0x69), (0x2112, 0x2112, 2, 0x6C),
  (0x2113, 0x2115, 2, 0x6C), (0x2119, 0x211B, 1, 0x70), (0x211C, 0x211C, 2, 0x72),
  (0x211D, 0x211D, 2, 0x72), (0x2124, 0x2124, 2, 0x7A), (0x2126, 0x2126, 2, 0x3C9),
  (0x2128, 0x2128, 2, 0x7A), (0x212A, 0x212A, 2, 0x6B), (0x212B, 0x212B, 2, 0xE5),
  (0x212C, 0x212D, 1, 0x62), (0x212F, 0x212F, 2, 0x65), (0x2130, 0x2131, 1, 0x65),
  (0x2133, 0x2133, 2, 0x6D), (0x2134, 0x2134, 2, 0x6F), (0x2139, 0x2139, 2, 0x69),
  (0x213C, 0x213C, 2, 0x3C0), (0x213D, 0x213D, 2, 0x3B3), (0x213E, 0x213E, 2, 0x3B3),
  (0x213F, 0x213F, 2, 0x3C0), (0x2140, 0x2140, 2, 0x2211), (0x2145, 0x2145, 2, 0x64),
  (0x2146, 0x2147, 1, 0x64), (0x2148, 0x2149, 1, 0x69), (0x2160, 0x2160, 2, 0x69),
  (0x2164, 0x2164, 2, 0x76), (0x2169, 0x2169, 2, 0x78), (0x216C, 0x216C, 2, 0x6C),
  (0x216D, 0x216E, 1, 0x63), (0x216F, 0x216F, 2, 0x6D), (0x2170, 0x2170, 2, 0x69),
  (0x2174, 0x2174, 2, 0x76), (0x2179, 0x2179, 2, 0x78), (0x217C, 0x217C, 2, 0x6C),
  (0x217D, 0x217E, 1, 0x63), (0x217F, 0x217F, 2, 0x6D), (0x2329, 0x232A, 1, 0x3008),
  (0x2460, 0x2468, 1, 0x31), (0x24B6, 0x24CF, 1, 0x61), (0x24D0, 0x24E9, 1, 0x61),
  (0x24EA, 0x24EA, 2, 0x30), (0x2C00, 0x2C2F, 1, 0x2C30), (0x2C60, 0x2C60, 2, 0x2C61),
  (0x2C62, 0x2C62, 2, 0x26B), (0x2C63, 0x2C63, 2, 0x1D7D), (0x2C64, 0x2C64, 2, 0x27D),
  (0x2C67, 0x2C6B, 2, 0x2C68), (0x2C6D, 0x2C6D, 2, 0x251), (0x2C6E, 0x2C6E, 2, 0x271),
  (0x2C6F, 0x2C6F, 2, 0x250), (0x2C70, 0x2C70, 2, 0x252), (0x2C72, 0x2C72, 2, 0x2C73),
  (0x2C75, 0x2C75, 2, 0x2C76), (0x2C7C, 0x2C7C, 2, 0x6A), (0x2C7D, 0x2C7D, 2, 0x76),
  (0x2C7E, 0x2C7F, 1, 0x23F), (0x2C80, 0x2CE2, 2, 0x2C81), (0x2CEB, 0x2CED, 2, 0x2CEC),
  (0x2CF2, 0x2CF2, 2, 0x2CF3), (0x2D6F, 0x2D6F, 2, 0x2D61), (0x3002, 0x3002, 2, 0x2E),
  (0x3036, 0x3036, 2, 0x3012), (0x3038, 0x3038, 2, 0x5341), (0x3039, 0x303A, 1, 0x5344),
  (0xA640, 0xA66C, 2, 0xA641), (0xA680, 0xA69A, 2, 0xA681), (0xA69C, 0xA69C, 2, 0x44A),
  (0xA69D, 0xA69D, 2, 0x44C), (0xA722, 0xA72E, 2, 0xA723), (0xA732, 0xA76E, 2, 0xA733),
  (0xA770, 0xA770, 2, 0xA76F), (0xA779, 0xA77B, 2, 0xA77A), (0xA77D, 0xA77D, 2, 0x1D79),
  (0xA77E, 0xA786, 2, 0xA77F), (0xA78B, 0xA78B, 2, 0xA78C), (0xA78D, 0xA78D, 2, 0x265),
  (0xA790, 0xA792, 2, 0xA791), (0xA796, 0xA7A8, 2, 0xA797), (0xA7AA, 0xA7AA, 2, 0x266),
  (0xA7AB, 0xA7AB, 2, 0x25C), (0xA7AC, 0xA7AC, 2, 0x261), (0xA7AD, 0xA7AD, 2, 0x26C),
  (0xA7AE, 0xA7AE, 2, 0x26A), (0xA7B0, 0xA7B0, 2, 0x29E), (0xA7B1, 0xA7B1, 2, 0x287),
  (0xA7B2, 0xA7B2, 2, 0x29D), (0xA7B3, 0xA7B3, 2, 0xAB53), (0xA7B4, 0xA7C2, 2, 0xA7B5),
  (0xA7C4, 0xA7C4, 2, 0xA794), (0xA7C5, 0xA7C5, 2, 0x282), (0xA7C6, 0xA7C6, 2, 0x1D8E),
  (0xA7C7, 0xA7C9, 2, 0xA7C8), (0xA7D0, 0xA7D0, 2, 0xA7D1), (0xA7D6, 0xA7D8, 2, 0xA7D7),
  (0xA7F2, 0xA7F2, 2, 0x63), (0xA7F3, 0xA7F3, 2, 0x66), (0xA7F4, 0xA7F4, 2, 0x71),
  (0xA7F5, 0xA7F5, 2, 0xA7F6), (0xA7F8, 0xA7F8, 2, 0x127), (0xA7F9, 0xA7F9, 2, 0x153),
  (0xAB5C, 0xAB5C, 2, 0xA727), (0xAB5D, 0xAB5D, 2, 0xAB37), (0xAB5E, 0xAB5E, 2, 0x26B),
  (0xAB5F, 0xAB5F, 2, 0xAB52), (0xAB69, 0xAB69, 2, 0x28D), (0xAB70, 0xABBF, 1, 0x13A0),
  (0xFF01, 0xFF02, 1, 0x21), (0xFF04, 0xFF18, 2, 0x24), (0xFF07, 0xFF0D, 2, 0x27),
  (0xFF11, 0xFF1D, 2, 0x31), (0xFF21, 0xFF3A, 1, 0x61), (0xFF3F, 0xFF5B, 1, 0x5F),
  (0xFF5D, 0xFF5E, 1, 0x7D), (0xFF5F, 0xFF60, 1, 0x2985), (0xFF61, 0xFF61, 2, 0x2E),
  (0xFF62, 0xFF63, 1, 0x300C), (0xFF64, 0xFF64, 2, 0x3001), (0xFF65, 0xFF65, 2, 0x30FB),
  (0xFF66, 0xFF66, 2, 0x30F2), (0xFF67, 0xFF67, 2, 0x30A1), (0xFF68, 0xFF68, 2, 0x30A3),
  (0xFF69, 0xFF69, 2, 0x30A5), (0xFF6A, 0xFF6A, 2, 0x30A7), (0xFF6B, 0xFF6B, 2, 0x30A9),
  (0xFF6C, 0xFF6C, 2, 0x30E3), (0xFF6D, 0xFF6D, 2, 0x30E5), (0xFF6E, 0xFF6E, 2, 0x30E7),
  (0xFF6F, 0xFF6F, 2, 0x30C3), (0xFF70, 0xFF70, 2, 0x30FC), (0xFF71, 0xFF71, 2, 0x30A2),
  (0xFF72, 0xFF72, 2, 0x30A4), (0xFF73, 0xFF73, 2, 0x30A6), (0xFF74, 0xFF74, 2, 0x30A8),
  (0xFF75, 0xFF76, 1, 0x30AA), (0xFF77, 0xFF77, 2, 0x30AD), (0xFF78, 0xFF78, 2, 0x30AF),
  (0xFF79, 0xFF79, 2, 0x30B1), (0xFF7A, 0xFF7A, 2, 0x30B3), (0xFF7B, 0xFF7B, 2, 0x30B5),
  (0xFF7C, 0xFF7C, 2, 0x30B7), (0xFF7D, 0xFF7D, 2, 0x30B9), (0xFF7E, 0xFF7E, 2, 0x30BB),
  (0xFF7F, 0xFF7F, 2, 0x30BD), (0xFF80, 0xFF80, 2, 0x30BF), (0xFF81, 0xFF81, 2, 0x30C1),
  (0xFF82, 0xFF82, 2, 0x30C4), (0xFF83, 0xFF83, 2, 0x30C6), (0xFF84, 0xFF84, 2, 0x30C8),
  (0xFF85, 0xFF8A, 1, 0x30CA), (0xFF8B, 0xFF8B, 2, 0x30D2), (0xFF8C, 0xFF8C, 2, 0x30D5),
  (0xFF8D, 0xFF8D, 2, 0x30D8), (0xFF8E, 0xFF8E, 2, 0x30DB), (0xFF8F, 0xFF93, 1, 0x30DE),
  (0xFF94, 0xFF94, 2, 0x30E4), (0xFF95, 0xFF95, 2, 0x30E6), (0xFF96, 0xFF9B, 1, 0x30E8),
  (0xFF9C, 0xFF9C, 2, 0x30EF), (0xFF9D, 0xFF9D, 2, 0x30F3), (0xFF9E, 0xFF9F, 1, 0x3099),
  (0xFFA1, 0xFFA2, 1, 0x1100), (0xFFA3, 0xFFA5, 2, 0x11AA), (0xFFA4, 0xFFA4, 2, 0x1102),
  (0xFFA6, 0xFFA6, 2, 0x11AD), (0xFFA7, 0xFFA9, 1, 0x1103), (0xFFAA, 0xFFAF, 1, 0x11B0),
  (0xFFB0, 0xFFB0, 2, 0x111A), (0xFFB1, 0xFFB3, 1, 0x1106), (0xFFB4, 0xFFB4, 2, 0x1121),
  (0xFFB5, 0xFFBE, 1, 0x1109), (0xFFC2, 0xFFC7, 1, 0x1161), (0xFFCA, 0xFFCF, 1, 0x1167),
  (0xFFD2, 0xFFD7, 1, 0x116D), (0xFFDA, 0xFFDC, 1, 0x1173), (0xFFE0, 0xFFE1, 1, 0xA2),
  (0xFFE2, 0xFFE2, 2, 0xAC), (0xFFE4, 0xFFE4, 2, 0xA6), (0xFFE5, 0xFFE5, 2, 0xA5),
  (0xFFE6, 0xFFE6, 2, 0x20A9), (0xFFE8, 0xFFE8, 2, 0x2502), (0xFFE9, 0xFFEC, 1, 0x2190),
  (0xFFED, 0xFFED, 2, 0x25A0), (0xFFEE, 0xFFEE, 2, 0x25CB), (0x10400, 0x10427, 1, 0x10428),
  (0x104B0, 0x104D3, 1, 0x104D8), (0x10570, 0x1057A, 1, 0x10597), (0x1057C, 0x1058A, 1, 0x105A3),
  (0x1058C, 0x10592, 1, 0x105B3), (0x10594, 0x10595, 1, 0x105BB), (0x10781, 0x10782, 1, 0x2D0),
  (0x10787, 0x10789, 2, 0x2A3), (0x1078B, 0x1078C, 1, 0x256), (0x10799, 0x1079A, 1, 0x2AA),
  (0x107A3, 0x107A4, 1, 0x276), (0x107A8, 0x107A9, 1, 0x27D), (0x107B3, 0x107B4, 1, 0x2A1),
  (0x107B6, 0x107B8, 1, 0x1C0), (0x118A0, 0x118BF, 1, 0x118C0), (0x16E40, 0x16E5F, 1, 0x16E60),
  (0x1E030, 0x1E038, 1, 0x430), (0x1E039, 0x1E03B, 1, 0x43A), (0x1E03C, 0x1E046, 1, 0x43E),
  (0x1E048, 0x1E049, 1, 0x44D), (0x1E051, 0x1E059, 1, 0x430), (0x1E05A, 0x1E05B, 1, 0x43A),
  (0x1E05C, 0x1E05D, 1, 0x43E), (0x1E05F, 0x1E064, 1, 0x443), (0x1E065, 0x1E066, 1, 0x44A),
  (0x1F130, 0x1F149, 1, 0x61), (0x1FBF0, 0x1FBF9, 1, 0x30)]

/-- Marks that are dropped from names: they are not seen. -/
def ignored : List (Nat × Nat) := [
  (0xAD, 0xAD), (0x34F, 0x34F), (0x180B, 0x180D), (0x180F, 0x180F), (0x200B, 0x200B),
  (0x2060, 0x2060), (0x2064, 0x2064), (0xFE00, 0xFE0F), (0xFEFF, 0xFEFF), (0x1BCA0, 0x1BCA3),
  (0xE0100, 0xE01EF)]

def foldChar (c : Char) : Char :=
  let n := c.toNat
  match foldings.find? fun (low, high, step, _) => low ≤ n && n ≤ high && (n - low) % step = 0 with
  | some (low, _, _, target) => Char.ofNat (target + (n - low))
  | none => c.toLower

end ChatGateway.Url
