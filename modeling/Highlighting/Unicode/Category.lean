-- The general category of a character. The tables list the runs of code
-- points that share a category, in ascending order. A code point in no run
-- is unassigned. ASCII has a table of its own, so the common case is short.

namespace Highlighting.Unicode

/-- The general categories, under their standard abbreviations. -/
inductive Category where
  /-- Uppercase letter. -/
  | lu
  /-- Lowercase letter. -/
  | ll
  /-- Titlecase letter. -/
  | lt
  /-- Modifier letter. -/
  | lm
  /-- Other letter. -/
  | lo
  /-- Nonspacing mark. -/
  | mn
  /-- Spacing mark. -/
  | mc
  /-- Enclosing mark. -/
  | me
  /-- Decimal digit. -/
  | nd
  /-- Letter number. -/
  | nl
  /-- Other number. -/
  | no
  /-- Connector punctuation. -/
  | pc
  /-- Dash. -/
  | pd
  /-- Opening punctuation. -/
  | ps
  /-- Closing punctuation. -/
  | pe
  /-- Initial quote. -/
  | pi
  /-- Final quote. -/
  | pf
  /-- Other punctuation. -/
  | po
  /-- Mathematical symbol. -/
  | sm
  /-- Currency symbol. -/
  | sc
  /-- Modifier symbol. -/
  | sk
  /-- Other symbol. -/
  | so
  /-- Space separator. -/
  | zs
  /-- Line separator. -/
  | zl
  /-- Paragraph separator. -/
  | zp
  /-- Control. -/
  | cc
  /-- Format character. -/
  | cf
  /-- Surrogate. -/
  | cs
  /-- Private use. -/
  | co
  /-- Unassigned. -/
  | cn
  deriving DecidableEq, Repr

namespace Category

/-! ## The runs -/

/-- The runs below U+0080. -/
def asciiRuns : Array (Nat × Nat × Category) := #[
  (0x0, 0x1f, cc), (0x20, 0x20, zs), (0x21, 0x23, po), (0x24, 0x24, sc), (0x25, 0x27, po),
  (0x28, 0x28, ps), (0x29, 0x29, pe), (0x2a, 0x2a, po), (0x2b, 0x2b, sm), (0x2c, 0x2c, po),
  (0x2d, 0x2d, pd), (0x2e, 0x2f, po), (0x30, 0x39, nd), (0x3a, 0x3b, po), (0x3c, 0x3e, sm),
  (0x3f, 0x40, po), (0x41, 0x5a, lu), (0x5b, 0x5b, ps), (0x5c, 0x5c, po), (0x5d, 0x5d, pe),
  (0x5e, 0x5e, sk), (0x5f, 0x5f, pc), (0x60, 0x60, sk), (0x61, 0x7a, ll), (0x7b, 0x7b, ps),
  (0x7c, 0x7c, sm), (0x7d, 0x7d, pe), (0x7e, 0x7e, sm), (0x7f, 0x7f, cc)]

/-- The runs from U+0080 up to U+0FFF. -/
def lowerRuns : Array (Nat × Nat × Category) := #[
  (0x80, 0x9f, cc), (0xa0, 0xa0, zs), (0xa1, 0xa1, po), (0xa2, 0xa5, sc), (0xa6, 0xa6, so),
  (0xa7, 0xa7, po), (0xa8, 0xa8, sk), (0xa9, 0xa9, so), (0xaa, 0xaa, lo), (0xab, 0xab, pi),
  (0xac, 0xac, sm), (0xad, 0xad, cf), (0xae, 0xae, so), (0xaf, 0xaf, sk), (0xb0, 0xb0, so),
  (0xb1, 0xb1, sm), (0xb2, 0xb3, no), (0xb4, 0xb4, sk), (0xb5, 0xb5, ll), (0xb6, 0xb7, po),
  (0xb8, 0xb8, sk), (0xb9, 0xb9, no), (0xba, 0xba, lo), (0xbb, 0xbb, pf), (0xbc, 0xbe, no),
  (0xbf, 0xbf, po), (0xc0, 0xd6, lu), (0xd7, 0xd7, sm), (0xd8, 0xde, lu), (0xdf, 0xf6, ll),
  (0xf7, 0xf7, sm), (0xf8, 0xff, ll), (0x17f, 0x180, ll), (0x181, 0x182, lu), (0x187, 0x187, lu),
  (0x188, 0x188, ll), (0x189, 0x18b, lu), (0x18c, 0x18d, ll), (0x18e, 0x191, lu),
  (0x192, 0x192, ll), (0x193, 0x194, lu), (0x195, 0x195, ll), (0x196, 0x198, lu),
  (0x199, 0x19b, ll), (0x19c, 0x19d, lu), (0x19e, 0x19e, ll), (0x19f, 0x1a0, lu),
  (0x1af, 0x1af, lu), (0x1b0, 0x1b0, ll), (0x1b1, 0x1b3, lu), (0x1b8, 0x1b8, lu),
  (0x1b9, 0x1ba, ll), (0x1bb, 0x1bb, lo), (0x1bc, 0x1bc, lu), (0x1bd, 0x1bf, ll),
  (0x1c0, 0x1c3, lo), (0x1c4, 0x1c4, lu), (0x1c5, 0x1c5, lt), (0x1c6, 0x1c6, ll),
  (0x1c7, 0x1c7, lu), (0x1c8, 0x1c8, lt), (0x1c9, 0x1c9, ll), (0x1ca, 0x1ca, lu),
  (0x1cb, 0x1cb, lt), (0x1f0, 0x1f0, ll), (0x1f1, 0x1f1, lu), (0x1f2, 0x1f2, lt),
  (0x1f7, 0x1f8, lu), (0x234, 0x239, ll), (0x23a, 0x23b, lu), (0x23c, 0x23c, ll),
  (0x23d, 0x23e, lu), (0x23f, 0x240, ll), (0x241, 0x241, lu), (0x242, 0x242, ll),
  (0x243, 0x246, lu), (0x250, 0x293, ll), (0x294, 0x294, lo), (0x295, 0x2af, ll),
  (0x2b0, 0x2c1, lm), (0x2c2, 0x2c5, sk), (0x2c6, 0x2d1, lm), (0x2d2, 0x2df, sk),
  (0x2e0, 0x2e4, lm), (0x2e5, 0x2eb, sk), (0x2f0, 0x2ff, sk), (0x300, 0x36f, mn),
  (0x374, 0x374, lm), (0x375, 0x375, sk), (0x376, 0x376, lu), (0x377, 0x377, ll),
  (0x37a, 0x37a, lm), (0x37b, 0x37d, ll), (0x37e, 0x37e, po), (0x37f, 0x37f, lu),
  (0x384, 0x385, sk), (0x386, 0x386, lu), (0x387, 0x387, po), (0x388, 0x38a, lu),
  (0x38c, 0x38c, lu), (0x38e, 0x38f, lu), (0x390, 0x390, ll), (0x391, 0x3a1, lu),
  (0x3a3, 0x3ab, lu), (0x3ac, 0x3ce, ll), (0x3cf, 0x3cf, lu), (0x3d0, 0x3d1, ll),
  (0x3d2, 0x3d4, lu), (0x3d5, 0x3d7, ll), (0x3f0, 0x3f3, ll), (0x3f4, 0x3f4, lu),
  (0x3f5, 0x3f5, ll), (0x3f6, 0x3f6, sm), (0x3f7, 0x3f7, lu), (0x3f8, 0x3f8, ll),
  (0x3f9, 0x3fa, lu), (0x3fb, 0x3fc, ll), (0x3fd, 0x42f, lu), (0x430, 0x45f, ll),
  (0x482, 0x482, so), (0x483, 0x487, mn), (0x488, 0x489, me), (0x531, 0x556, lu),
  (0x559, 0x559, lm), (0x55a, 0x55f, po), (0x560, 0x588, ll), (0x589, 0x589, po),
  (0x58a, 0x58a, pd), (0x58d, 0x58e, so), (0x58f, 0x58f, sc), (0x591, 0x5bd, mn),
  (0x5be, 0x5be, pd), (0x5bf, 0x5bf, mn), (0x5c0, 0x5c0, po), (0x5c1, 0x5c2, mn),
  (0x5c3, 0x5c3, po), (0x5c4, 0x5c5, mn), (0x5c6, 0x5c6, po), (0x5c7, 0x5c7, mn),
  (0x5d0, 0x5ea, lo), (0x5ef, 0x5f2, lo), (0x5f3, 0x5f4, po), (0x600, 0x605, cf),
  (0x606, 0x608, sm), (0x609, 0x60a, po), (0x60b, 0x60b, sc), (0x60c, 0x60d, po),
  (0x60e, 0x60f, so), (0x610, 0x61a, mn), (0x61b, 0x61b, po), (0x61c, 0x61c, cf),
  (0x61d, 0x61f, po), (0x620, 0x63f, lo), (0x640, 0x640, lm), (0x641, 0x64a, lo),
  (0x64b, 0x65f, mn), (0x660, 0x669, nd), (0x66a, 0x66d, po), (0x66e, 0x66f, lo),
  (0x670, 0x670, mn), (0x671, 0x6d3, lo), (0x6d4, 0x6d4, po), (0x6d5, 0x6d5, lo),
  (0x6d6, 0x6dc, mn), (0x6dd, 0x6dd, cf), (0x6de, 0x6de, so), (0x6df, 0x6e4, mn),
  (0x6e5, 0x6e6, lm), (0x6e7, 0x6e8, mn), (0x6e9, 0x6e9, so), (0x6ea, 0x6ed, mn),
  (0x6ee, 0x6ef, lo), (0x6f0, 0x6f9, nd), (0x6fa, 0x6fc, lo), (0x6fd, 0x6fe, so),
  (0x6ff, 0x6ff, lo), (0x700, 0x70d, po), (0x70f, 0x70f, cf), (0x710, 0x710, lo),
  (0x711, 0x711, mn), (0x712, 0x72f, lo), (0x730, 0x74a, mn), (0x74d, 0x7a5, lo),
  (0x7a6, 0x7b0, mn), (0x7b1, 0x7b1, lo), (0x7c0, 0x7c9, nd), (0x7ca, 0x7ea, lo),
  (0x7eb, 0x7f3, mn), (0x7f4, 0x7f5, lm), (0x7f6, 0x7f6, so), (0x7f7, 0x7f9, po),
  (0x7fa, 0x7fa, lm), (0x7fd, 0x7fd, mn), (0x7fe, 0x7ff, sc), (0x800, 0x815, lo),
  (0x816, 0x819, mn), (0x81a, 0x81a, lm), (0x81b, 0x823, mn), (0x824, 0x824, lm),
  (0x825, 0x827, mn), (0x828, 0x828, lm), (0x829, 0x82d, mn), (0x830, 0x83e, po),
  (0x840, 0x858, lo), (0x859, 0x85b, mn), (0x85e, 0x85e, po), (0x860, 0x86a, lo),
  (0x870, 0x887, lo), (0x888, 0x888, sk), (0x889, 0x88e, lo), (0x890, 0x891, cf),
  (0x898, 0x89f, mn), (0x8a0, 0x8c8, lo), (0x8c9, 0x8c9, lm), (0x8ca, 0x8e1, mn),
  (0x8e2, 0x8e2, cf), (0x8e3, 0x902, mn), (0x903, 0x903, mc), (0x904, 0x939, lo),
  (0x93a, 0x93a, mn), (0x93b, 0x93b, mc), (0x93c, 0x93c, mn), (0x93d, 0x93d, lo),
  (0x93e, 0x940, mc), (0x941, 0x948, mn), (0x949, 0x94c, mc), (0x94d, 0x94d, mn),
  (0x94e, 0x94f, mc), (0x950, 0x950, lo), (0x951, 0x957, mn), (0x958, 0x961, lo),
  (0x962, 0x963, mn), (0x964, 0x965, po), (0x966, 0x96f, nd), (0x970, 0x970, po),
  (0x971, 0x971, lm), (0x972, 0x980, lo), (0x981, 0x981, mn), (0x982, 0x983, mc),
  (0x985, 0x98c, lo), (0x98f, 0x990, lo), (0x993, 0x9a8, lo), (0x9aa, 0x9b0, lo),
  (0x9b2, 0x9b2, lo), (0x9b6, 0x9b9, lo), (0x9bc, 0x9bc, mn), (0x9bd, 0x9bd, lo),
  (0x9be, 0x9c0, mc), (0x9c1, 0x9c4, mn), (0x9c7, 0x9c8, mc), (0x9cb, 0x9cc, mc),
  (0x9cd, 0x9cd, mn), (0x9ce, 0x9ce, lo), (0x9d7, 0x9d7, mc), (0x9dc, 0x9dd, lo),
  (0x9df, 0x9e1, lo), (0x9e2, 0x9e3, mn), (0x9e6, 0x9ef, nd), (0x9f0, 0x9f1, lo),
  (0x9f2, 0x9f3, sc), (0x9f4, 0x9f9, no), (0x9fa, 0x9fa, so), (0x9fb, 0x9fb, sc),
  (0x9fc, 0x9fc, lo), (0x9fd, 0x9fd, po), (0x9fe, 0x9fe, mn), (0xa01, 0xa02, mn),
  (0xa03, 0xa03, mc), (0xa05, 0xa0a, lo), (0xa0f, 0xa10, lo), (0xa13, 0xa28, lo),
  (0xa2a, 0xa30, lo), (0xa32, 0xa33, lo), (0xa35, 0xa36, lo), (0xa38, 0xa39, lo),
  (0xa3c, 0xa3c, mn), (0xa3e, 0xa40, mc), (0xa41, 0xa42, mn), (0xa47, 0xa48, mn),
  (0xa4b, 0xa4d, mn), (0xa51, 0xa51, mn), (0xa59, 0xa5c, lo), (0xa5e, 0xa5e, lo),
  (0xa66, 0xa6f, nd), (0xa70, 0xa71, mn), (0xa72, 0xa74, lo), (0xa75, 0xa75, mn),
  (0xa76, 0xa76, po), (0xa81, 0xa82, mn), (0xa83, 0xa83, mc), (0xa85, 0xa8d, lo),
  (0xa8f, 0xa91, lo), (0xa93, 0xaa8, lo), (0xaaa, 0xab0, lo), (0xab2, 0xab3, lo),
  (0xab5, 0xab9, lo), (0xabc, 0xabc, mn), (0xabd, 0xabd, lo), (0xabe, 0xac0, mc),
  (0xac1, 0xac5, mn), (0xac7, 0xac8, mn), (0xac9, 0xac9, mc), (0xacb, 0xacc, mc),
  (0xacd, 0xacd, mn), (0xad0, 0xad0, lo), (0xae0, 0xae1, lo), (0xae2, 0xae3, mn),
  (0xae6, 0xaef, nd), (0xaf0, 0xaf0, po), (0xaf1, 0xaf1, sc), (0xaf9, 0xaf9, lo),
  (0xafa, 0xaff, mn), (0xb01, 0xb01, mn), (0xb02, 0xb03, mc), (0xb05, 0xb0c, lo),
  (0xb0f, 0xb10, lo), (0xb13, 0xb28, lo), (0xb2a, 0xb30, lo), (0xb32, 0xb33, lo),
  (0xb35, 0xb39, lo), (0xb3c, 0xb3c, mn), (0xb3d, 0xb3d, lo), (0xb42, 0xb44, mn),
  (0xb47, 0xb48, mc), (0xb4b, 0xb4c, mc), (0xb4d, 0xb4d, mn), (0xb55, 0xb56, mn),
  (0xb57, 0xb57, mc), (0xb5c, 0xb5d, lo), (0xb5f, 0xb61, lo), (0xb62, 0xb63, mn),
  (0xb66, 0xb6f, nd), (0xb70, 0xb70, so), (0xb71, 0xb71, lo), (0xb72, 0xb77, no),
  (0xb82, 0xb82, mn), (0xb83, 0xb83, lo), (0xb85, 0xb8a, lo), (0xb8e, 0xb90, lo),
  (0xb92, 0xb95, lo), (0xb99, 0xb9a, lo), (0xb9c, 0xb9c, lo), (0xb9e, 0xb9f, lo),
  (0xba3, 0xba4, lo), (0xba8, 0xbaa, lo), (0xbae, 0xbb9, lo), (0xbbe, 0xbbf, mc),
  (0xbc0, 0xbc0, mn), (0xbc1, 0xbc2, mc), (0xbc6, 0xbc8, mc), (0xbca, 0xbcc, mc),
  (0xbcd, 0xbcd, mn), (0xbd0, 0xbd0, lo), (0xbd7, 0xbd7, mc), (0xbe6, 0xbef, nd),
  (0xbf0, 0xbf2, no), (0xbf3, 0xbf8, so), (0xbf9, 0xbf9, sc), (0xbfa, 0xbfa, so),
  (0xc00, 0xc00, mn), (0xc01, 0xc03, mc), (0xc04, 0xc04, mn), (0xc05, 0xc0c, lo),
  (0xc0e, 0xc10, lo), (0xc12, 0xc28, lo), (0xc2a, 0xc39, lo), (0xc3c, 0xc3c, mn),
  (0xc3d, 0xc3d, lo), (0xc3e, 0xc40, mn), (0xc41, 0xc44, mc), (0xc46, 0xc48, mn),
  (0xc4a, 0xc4d, mn), (0xc55, 0xc56, mn), (0xc58, 0xc5a, lo), (0xc5d, 0xc5d, lo),
  (0xc60, 0xc61, lo), (0xc62, 0xc63, mn), (0xc66, 0xc6f, nd), (0xc77, 0xc77, po),
  (0xc78, 0xc7e, no), (0xc7f, 0xc7f, so), (0xc80, 0xc80, lo), (0xc81, 0xc81, mn),
  (0xc82, 0xc83, mc), (0xc84, 0xc84, po), (0xc85, 0xc8c, lo), (0xc8e, 0xc90, lo),
  (0xc92, 0xca8, lo), (0xcaa, 0xcb3, lo), (0xcb5, 0xcb9, lo), (0xcbc, 0xcbc, mn),
  (0xcbd, 0xcbd, lo), (0xcbe, 0xcbe, mc), (0xcbf, 0xcbf, mn), (0xcc0, 0xcc4, mc),
  (0xcc6, 0xcc6, mn), (0xcc7, 0xcc8, mc), (0xcca, 0xccb, mc), (0xccc, 0xccd, mn),
  (0xcd5, 0xcd6, mc), (0xcdd, 0xcde, lo), (0xce0, 0xce1, lo), (0xce2, 0xce3, mn),
  (0xce6, 0xcef, nd), (0xcf1, 0xcf2, lo), (0xd00, 0xd01, mn), (0xd02, 0xd03, mc),
  (0xd04, 0xd0c, lo), (0xd0e, 0xd10, lo), (0xd12, 0xd3a, lo), (0xd3b, 0xd3c, mn),
  (0xd3d, 0xd3d, lo), (0xd3e, 0xd40, mc), (0xd41, 0xd44, mn), (0xd46, 0xd48, mc),
  (0xd4a, 0xd4c, mc), (0xd4d, 0xd4d, mn), (0xd4e, 0xd4e, lo), (0xd4f, 0xd4f, so),
  (0xd54, 0xd56, lo), (0xd57, 0xd57, mc), (0xd58, 0xd5e, no), (0xd5f, 0xd61, lo),
  (0xd62, 0xd63, mn), (0xd66, 0xd6f, nd), (0xd70, 0xd78, no), (0xd79, 0xd79, so),
  (0xd7a, 0xd7f, lo), (0xd81, 0xd81, mn), (0xd82, 0xd83, mc), (0xd85, 0xd96, lo),
  (0xd9a, 0xdb1, lo), (0xdb3, 0xdbb, lo), (0xdbd, 0xdbd, lo), (0xdc0, 0xdc6, lo),
  (0xdca, 0xdca, mn), (0xdcf, 0xdd1, mc), (0xdd2, 0xdd4, mn), (0xdd6, 0xdd6, mn),
  (0xdd8, 0xddf, mc), (0xde6, 0xdef, nd), (0xdf2, 0xdf3, mc), (0xdf4, 0xdf4, po),
  (0xe01, 0xe30, lo), (0xe31, 0xe31, mn), (0xe32, 0xe33, lo), (0xe34, 0xe3a, mn),
  (0xe3f, 0xe3f, sc), (0xe40, 0xe45, lo), (0xe46, 0xe46, lm), (0xe47, 0xe4e, mn),
  (0xe4f, 0xe4f, po), (0xe50, 0xe59, nd), (0xe5a, 0xe5b, po), (0xe81, 0xe82, lo),
  (0xe84, 0xe84, lo), (0xe86, 0xe8a, lo), (0xe8c, 0xea3, lo), (0xea5, 0xea5, lo),
  (0xea7, 0xeb0, lo), (0xeb1, 0xeb1, mn), (0xeb2, 0xeb3, lo), (0xeb4, 0xebc, mn),
  (0xebd, 0xebd, lo), (0xec0, 0xec4, lo), (0xec6, 0xec6, lm), (0xec8, 0xecd, mn),
  (0xed0, 0xed9, nd), (0xedc, 0xedf, lo), (0xf00, 0xf00, lo), (0xf01, 0xf03, so),
  (0xf04, 0xf12, po), (0xf13, 0xf13, so), (0xf14, 0xf14, po), (0xf15, 0xf17, so),
  (0xf18, 0xf19, mn), (0xf1a, 0xf1f, so), (0xf20, 0xf29, nd), (0xf2a, 0xf33, no),
  (0xf3e, 0xf3f, mc), (0xf40, 0xf47, lo), (0xf49, 0xf6c, lo), (0xf71, 0xf7e, mn),
  (0xf7f, 0xf7f, mc), (0xf80, 0xf84, mn), (0xf85, 0xf85, po), (0xf86, 0xf87, mn),
  (0xf88, 0xf8c, lo), (0xf8d, 0xf97, mn), (0xf99, 0xfbc, mn), (0xfbe, 0xfc5, so),
  (0xfc6, 0xfc6, mn), (0xfc7, 0xfcc, so), (0xfce, 0xfcf, so), (0xfd0, 0xfd4, po),
  (0xfd5, 0xfd8, so), (0xfd9, 0xfda, po)]

/-- The runs from U+1000 up to U+FFFF. -/
def upperRuns : Array (Nat × Nat × Category) := #[
  (0x1000, 0x102a, lo), (0x102b, 0x102c, mc), (0x102d, 0x1030, mn), (0x1031, 0x1031, mc),
  (0x1032, 0x1037, mn), (0x1038, 0x1038, mc), (0x1039, 0x103a, mn), (0x103b, 0x103c, mc),
  (0x103d, 0x103e, mn), (0x103f, 0x103f, lo), (0x1040, 0x1049, nd), (0x104a, 0x104f, po),
  (0x1050, 0x1055, lo), (0x1056, 0x1057, mc), (0x1058, 0x1059, mn), (0x105a, 0x105d, lo),
  (0x105e, 0x1060, mn), (0x1061, 0x1061, lo), (0x1062, 0x1064, mc), (0x1065, 0x1066, lo),
  (0x1067, 0x106d, mc), (0x106e, 0x1070, lo), (0x1071, 0x1074, mn), (0x1075, 0x1081, lo),
  (0x1082, 0x1082, mn), (0x1083, 0x1084, mc), (0x1085, 0x1086, mn), (0x1087, 0x108c, mc),
  (0x108d, 0x108d, mn), (0x108e, 0x108e, lo), (0x108f, 0x108f, mc), (0x1090, 0x1099, nd),
  (0x109a, 0x109c, mc), (0x109d, 0x109d, mn), (0x109e, 0x109f, so), (0x10a0, 0x10c5, lu),
  (0x10c7, 0x10c7, lu), (0x10cd, 0x10cd, lu), (0x10d0, 0x10fa, ll), (0x10fb, 0x10fb, po),
  (0x10fc, 0x10fc, lm), (0x10fd, 0x10ff, ll), (0x1100, 0x1248, lo), (0x124a, 0x124d, lo),
  (0x1250, 0x1256, lo), (0x1258, 0x1258, lo), (0x125a, 0x125d, lo), (0x1260, 0x1288, lo),
  (0x128a, 0x128d, lo), (0x1290, 0x12b0, lo), (0x12b2, 0x12b5, lo), (0x12b8, 0x12be, lo),
  (0x12c0, 0x12c0, lo), (0x12c2, 0x12c5, lo), (0x12c8, 0x12d6, lo), (0x12d8, 0x1310, lo),
  (0x1312, 0x1315, lo), (0x1318, 0x135a, lo), (0x135d, 0x135f, mn), (0x1360, 0x1368, po),
  (0x1369, 0x137c, no), (0x1380, 0x138f, lo), (0x1390, 0x1399, so), (0x13a0, 0x13f5, lu),
  (0x13f8, 0x13fd, ll), (0x1400, 0x1400, pd), (0x1401, 0x166c, lo), (0x166d, 0x166d, so),
  (0x166e, 0x166e, po), (0x166f, 0x167f, lo), (0x1680, 0x1680, zs), (0x1681, 0x169a, lo),
  (0x169b, 0x169b, ps), (0x169c, 0x169c, pe), (0x16a0, 0x16ea, lo), (0x16eb, 0x16ed, po),
  (0x16ee, 0x16f0, nl), (0x16f1, 0x16f8, lo), (0x1700, 0x1711, lo), (0x1712, 0x1714, mn),
  (0x1715, 0x1715, mc), (0x171f, 0x1731, lo), (0x1732, 0x1733, mn), (0x1734, 0x1734, mc),
  (0x1735, 0x1736, po), (0x1740, 0x1751, lo), (0x1752, 0x1753, mn), (0x1760, 0x176c, lo),
  (0x176e, 0x1770, lo), (0x1772, 0x1773, mn), (0x1780, 0x17b3, lo), (0x17b4, 0x17b5, mn),
  (0x17b6, 0x17b6, mc), (0x17b7, 0x17bd, mn), (0x17be, 0x17c5, mc), (0x17c6, 0x17c6, mn),
  (0x17c7, 0x17c8, mc), (0x17c9, 0x17d3, mn), (0x17d4, 0x17d6, po), (0x17d7, 0x17d7, lm),
  (0x17d8, 0x17da, po), (0x17db, 0x17db, sc), (0x17dc, 0x17dc, lo), (0x17dd, 0x17dd, mn),
  (0x17e0, 0x17e9, nd), (0x17f0, 0x17f9, no), (0x1800, 0x1805, po), (0x1806, 0x1806, pd),
  (0x1807, 0x180a, po), (0x180b, 0x180d, mn), (0x180e, 0x180e, cf), (0x180f, 0x180f, mn),
  (0x1810, 0x1819, nd), (0x1820, 0x1842, lo), (0x1843, 0x1843, lm), (0x1844, 0x1878, lo),
  (0x1880, 0x1884, lo), (0x1885, 0x1886, mn), (0x1887, 0x18a8, lo), (0x18a9, 0x18a9, mn),
  (0x18aa, 0x18aa, lo), (0x18b0, 0x18f5, lo), (0x1900, 0x191e, lo), (0x1920, 0x1922, mn),
  (0x1923, 0x1926, mc), (0x1927, 0x1928, mn), (0x1929, 0x192b, mc), (0x1930, 0x1931, mc),
  (0x1932, 0x1932, mn), (0x1933, 0x1938, mc), (0x1939, 0x193b, mn), (0x1940, 0x1940, so),
  (0x1944, 0x1945, po), (0x1946, 0x194f, nd), (0x1950, 0x196d, lo), (0x1970, 0x1974, lo),
  (0x1980, 0x19ab, lo), (0x19b0, 0x19c9, lo), (0x19d0, 0x19d9, nd), (0x19da, 0x19da, no),
  (0x19de, 0x19ff, so), (0x1a00, 0x1a16, lo), (0x1a17, 0x1a18, mn), (0x1a19, 0x1a1a, mc),
  (0x1a1b, 0x1a1b, mn), (0x1a1e, 0x1a1f, po), (0x1a20, 0x1a54, lo), (0x1a59, 0x1a5e, mn),
  (0x1a64, 0x1a64, mc), (0x1a65, 0x1a6c, mn), (0x1a6d, 0x1a72, mc), (0x1a73, 0x1a7c, mn),
  (0x1a7f, 0x1a7f, mn), (0x1a80, 0x1a89, nd), (0x1a90, 0x1a99, nd), (0x1aa0, 0x1aa6, po),
  (0x1aa7, 0x1aa7, lm), (0x1aa8, 0x1aad, po), (0x1ab0, 0x1abd, mn), (0x1abe, 0x1abe, me),
  (0x1abf, 0x1ace, mn), (0x1b00, 0x1b03, mn), (0x1b04, 0x1b04, mc), (0x1b05, 0x1b33, lo),
  (0x1b34, 0x1b34, mn), (0x1b35, 0x1b35, mc), (0x1b36, 0x1b3a, mn), (0x1b3b, 0x1b3b, mc),
  (0x1b3c, 0x1b3c, mn), (0x1b3d, 0x1b41, mc), (0x1b42, 0x1b42, mn), (0x1b43, 0x1b44, mc),
  (0x1b45, 0x1b4c, lo), (0x1b50, 0x1b59, nd), (0x1b5a, 0x1b60, po), (0x1b61, 0x1b6a, so),
  (0x1b6b, 0x1b73, mn), (0x1b74, 0x1b7c, so), (0x1b7d, 0x1b7e, po), (0x1b80, 0x1b81, mn),
  (0x1b82, 0x1b82, mc), (0x1b83, 0x1ba0, lo), (0x1ba1, 0x1ba1, mc), (0x1ba2, 0x1ba5, mn),
  (0x1ba6, 0x1ba7, mc), (0x1ba8, 0x1ba9, mn), (0x1baa, 0x1baa, mc), (0x1bab, 0x1bad, mn),
  (0x1bae, 0x1baf, lo), (0x1bb0, 0x1bb9, nd), (0x1bba, 0x1be5, lo), (0x1be6, 0x1be6, mn),
  (0x1be7, 0x1be7, mc), (0x1be8, 0x1be9, mn), (0x1bea, 0x1bec, mc), (0x1bed, 0x1bed, mn),
  (0x1bee, 0x1bee, mc), (0x1bef, 0x1bf1, mn), (0x1bf2, 0x1bf3, mc), (0x1bfc, 0x1bff, po),
  (0x1c00, 0x1c23, lo), (0x1c24, 0x1c2b, mc), (0x1c2c, 0x1c33, mn), (0x1c34, 0x1c35, mc),
  (0x1c36, 0x1c37, mn), (0x1c3b, 0x1c3f, po), (0x1c40, 0x1c49, nd), (0x1c4d, 0x1c4f, lo),
  (0x1c50, 0x1c59, nd), (0x1c5a, 0x1c77, lo), (0x1c78, 0x1c7d, lm), (0x1c7e, 0x1c7f, po),
  (0x1c80, 0x1c88, ll), (0x1c90, 0x1cba, lu), (0x1cbd, 0x1cbf, lu), (0x1cc0, 0x1cc7, po),
  (0x1cd0, 0x1cd2, mn), (0x1cd3, 0x1cd3, po), (0x1cd4, 0x1ce0, mn), (0x1ce1, 0x1ce1, mc),
  (0x1ce2, 0x1ce8, mn), (0x1ce9, 0x1cec, lo), (0x1ced, 0x1ced, mn), (0x1cee, 0x1cf3, lo),
  (0x1cf4, 0x1cf4, mn), (0x1cf5, 0x1cf6, lo), (0x1cf7, 0x1cf7, mc), (0x1cf8, 0x1cf9, mn),
  (0x1cfa, 0x1cfa, lo), (0x1d00, 0x1d2b, ll), (0x1d2c, 0x1d6a, lm), (0x1d6b, 0x1d77, ll),
  (0x1d78, 0x1d78, lm), (0x1d79, 0x1d9a, ll), (0x1d9b, 0x1dbf, lm), (0x1dc0, 0x1dff, mn),
  (0x1e96, 0x1e9d, ll), (0x1f00, 0x1f07, ll), (0x1f08, 0x1f0f, lu), (0x1f10, 0x1f15, ll),
  (0x1f18, 0x1f1d, lu), (0x1f20, 0x1f27, ll), (0x1f28, 0x1f2f, lu), (0x1f30, 0x1f37, ll),
  (0x1f38, 0x1f3f, lu), (0x1f40, 0x1f45, ll), (0x1f48, 0x1f4d, lu), (0x1f50, 0x1f57, ll),
  (0x1f59, 0x1f59, lu), (0x1f5b, 0x1f5b, lu), (0x1f5d, 0x1f5d, lu), (0x1f5f, 0x1f5f, lu),
  (0x1f60, 0x1f67, ll), (0x1f68, 0x1f6f, lu), (0x1f70, 0x1f7d, ll), (0x1f80, 0x1f87, ll),
  (0x1f88, 0x1f8f, lt), (0x1f90, 0x1f97, ll), (0x1f98, 0x1f9f, lt), (0x1fa0, 0x1fa7, ll),
  (0x1fa8, 0x1faf, lt), (0x1fb0, 0x1fb4, ll), (0x1fb6, 0x1fb7, ll), (0x1fb8, 0x1fbb, lu),
  (0x1fbc, 0x1fbc, lt), (0x1fbd, 0x1fbd, sk), (0x1fbe, 0x1fbe, ll), (0x1fbf, 0x1fc1, sk),
  (0x1fc2, 0x1fc4, ll), (0x1fc6, 0x1fc7, ll), (0x1fc8, 0x1fcb, lu), (0x1fcc, 0x1fcc, lt),
  (0x1fcd, 0x1fcf, sk), (0x1fd0, 0x1fd3, ll), (0x1fd6, 0x1fd7, ll), (0x1fd8, 0x1fdb, lu),
  (0x1fdd, 0x1fdf, sk), (0x1fe0, 0x1fe7, ll), (0x1fe8, 0x1fec, lu), (0x1fed, 0x1fef, sk),
  (0x1ff2, 0x1ff4, ll), (0x1ff6, 0x1ff7, ll), (0x1ff8, 0x1ffb, lu), (0x1ffc, 0x1ffc, lt),
  (0x1ffd, 0x1ffe, sk), (0x2000, 0x200a, zs), (0x200b, 0x200f, cf), (0x2010, 0x2015, pd),
  (0x2016, 0x2017, po), (0x2018, 0x2018, pi), (0x2019, 0x2019, pf), (0x201a, 0x201a, ps),
  (0x201b, 0x201c, pi), (0x201d, 0x201d, pf), (0x201e, 0x201e, ps), (0x201f, 0x201f, pi),
  (0x2020, 0x2027, po), (0x2028, 0x2028, zl), (0x2029, 0x2029, zp), (0x202a, 0x202e, cf),
  (0x202f, 0x202f, zs), (0x2030, 0x2038, po), (0x2039, 0x2039, pi), (0x203a, 0x203a, pf),
  (0x203b, 0x203e, po), (0x203f, 0x2040, pc), (0x2041, 0x2043, po), (0x2044, 0x2044, sm),
  (0x2045, 0x2045, ps), (0x2046, 0x2046, pe), (0x2047, 0x2051, po), (0x2052, 0x2052, sm),
  (0x2053, 0x2053, po), (0x2054, 0x2054, pc), (0x2055, 0x205e, po), (0x205f, 0x205f, zs),
  (0x2060, 0x2064, cf), (0x2066, 0x206f, cf), (0x2070, 0x2070, no), (0x2071, 0x2071, lm),
  (0x2074, 0x2079, no), (0x207a, 0x207c, sm), (0x207d, 0x207d, ps), (0x207e, 0x207e, pe),
  (0x207f, 0x207f, lm), (0x2080, 0x2089, no), (0x208a, 0x208c, sm), (0x208d, 0x208d, ps),
  (0x208e, 0x208e, pe), (0x2090, 0x209c, lm), (0x20a0, 0x20c0, sc), (0x20d0, 0x20dc, mn),
  (0x20dd, 0x20e0, me), (0x20e1, 0x20e1, mn), (0x20e2, 0x20e4, me), (0x20e5, 0x20f0, mn),
  (0x2100, 0x2101, so), (0x2102, 0x2102, lu), (0x2103, 0x2106, so), (0x2107, 0x2107, lu),
  (0x2108, 0x2109, so), (0x210a, 0x210a, ll), (0x210b, 0x210d, lu), (0x210e, 0x210f, ll),
  (0x2110, 0x2112, lu), (0x2113, 0x2113, ll), (0x2114, 0x2114, so), (0x2115, 0x2115, lu),
  (0x2116, 0x2117, so), (0x2118, 0x2118, sm), (0x2119, 0x211d, lu), (0x211e, 0x2123, so),
  (0x212b, 0x212d, lu), (0x212e, 0x212e, so), (0x212f, 0x212f, ll), (0x2130, 0x2133, lu),
  (0x2134, 0x2134, ll), (0x2135, 0x2138, lo), (0x2139, 0x2139, ll), (0x213a, 0x213b, so),
  (0x213c, 0x213d, ll), (0x213e, 0x213f, lu), (0x2140, 0x2144, sm), (0x2145, 0x2145, lu),
  (0x2146, 0x2149, ll), (0x214a, 0x214a, so), (0x214b, 0x214b, sm), (0x214c, 0x214d, so),
  (0x214e, 0x214e, ll), (0x214f, 0x214f, so), (0x2150, 0x215f, no), (0x2160, 0x2182, nl),
  (0x2183, 0x2183, lu), (0x2184, 0x2184, ll), (0x2185, 0x2188, nl), (0x2189, 0x2189, no),
  (0x218a, 0x218b, so), (0x2190, 0x2194, sm), (0x2195, 0x2199, so), (0x219a, 0x219b, sm),
  (0x219c, 0x219f, so), (0x21a0, 0x21a0, sm), (0x21a1, 0x21a2, so), (0x21a3, 0x21a3, sm),
  (0x21a4, 0x21a5, so), (0x21a6, 0x21a6, sm), (0x21a7, 0x21ad, so), (0x21ae, 0x21ae, sm),
  (0x21af, 0x21cd, so), (0x21ce, 0x21cf, sm), (0x21d0, 0x21d1, so), (0x21d6, 0x21f3, so),
  (0x21f4, 0x22ff, sm), (0x2300, 0x2307, so), (0x230c, 0x231f, so), (0x2320, 0x2321, sm),
  (0x2322, 0x2328, so), (0x2329, 0x2329, ps), (0x232a, 0x232a, pe), (0x232b, 0x237b, so),
  (0x237c, 0x237c, sm), (0x237d, 0x239a, so), (0x239b, 0x23b3, sm), (0x23b4, 0x23db, so),
  (0x23dc, 0x23e1, sm), (0x23e2, 0x2426, so), (0x2440, 0x244a, so), (0x2460, 0x249b, no),
  (0x249c, 0x24e9, so), (0x24ea, 0x24ff, no), (0x2500, 0x25b6, so), (0x25b7, 0x25b7, sm),
  (0x25b8, 0x25c0, so), (0x25c1, 0x25c1, sm), (0x25c2, 0x25f7, so), (0x25f8, 0x25ff, sm),
  (0x2600, 0x266e, so), (0x266f, 0x266f, sm), (0x2670, 0x2767, so), (0x2776, 0x2793, no),
  (0x2794, 0x27bf, so), (0x27c0, 0x27c4, sm), (0x27c5, 0x27c5, ps), (0x27c6, 0x27c6, pe),
  (0x27c7, 0x27e5, sm), (0x27f0, 0x27ff, sm), (0x2800, 0x28ff, so), (0x2900, 0x2982, sm),
  (0x2999, 0x29d7, sm), (0x29dc, 0x29fb, sm), (0x29fc, 0x29fc, ps), (0x29fd, 0x29fd, pe),
  (0x29fe, 0x2aff, sm), (0x2b00, 0x2b2f, so), (0x2b30, 0x2b44, sm), (0x2b45, 0x2b46, so),
  (0x2b47, 0x2b4c, sm), (0x2b4d, 0x2b73, so), (0x2b76, 0x2b95, so), (0x2b97, 0x2bff, so),
  (0x2c00, 0x2c2f, lu), (0x2c30, 0x2c5f, ll), (0x2c60, 0x2c60, lu), (0x2c61, 0x2c61, ll),
  (0x2c62, 0x2c64, lu), (0x2c65, 0x2c66, ll), (0x2c6e, 0x2c70, lu), (0x2c71, 0x2c71, ll),
  (0x2c72, 0x2c72, lu), (0x2c73, 0x2c74, ll), (0x2c75, 0x2c75, lu), (0x2c76, 0x2c7b, ll),
  (0x2c7c, 0x2c7d, lm), (0x2c7e, 0x2c80, lu), (0x2ce4, 0x2ce4, ll), (0x2ce5, 0x2cea, so),
  (0x2cef, 0x2cf1, mn), (0x2cf2, 0x2cf2, lu), (0x2cf3, 0x2cf3, ll), (0x2cf9, 0x2cfc, po),
  (0x2cfd, 0x2cfd, no), (0x2cfe, 0x2cff, po), (0x2d00, 0x2d25, ll), (0x2d27, 0x2d27, ll),
  (0x2d2d, 0x2d2d, ll), (0x2d30, 0x2d67, lo), (0x2d6f, 0x2d6f, lm), (0x2d70, 0x2d70, po),
  (0x2d7f, 0x2d7f, mn), (0x2d80, 0x2d96, lo), (0x2da0, 0x2da6, lo), (0x2da8, 0x2dae, lo),
  (0x2db0, 0x2db6, lo), (0x2db8, 0x2dbe, lo), (0x2dc0, 0x2dc6, lo), (0x2dc8, 0x2dce, lo),
  (0x2dd0, 0x2dd6, lo), (0x2dd8, 0x2dde, lo), (0x2de0, 0x2dff, mn), (0x2e00, 0x2e01, po),
  (0x2e06, 0x2e08, po), (0x2e09, 0x2e09, pi), (0x2e0a, 0x2e0a, pf), (0x2e0b, 0x2e0b, po),
  (0x2e0c, 0x2e0c, pi), (0x2e0d, 0x2e0d, pf), (0x2e0e, 0x2e16, po), (0x2e17, 0x2e17, pd),
  (0x2e18, 0x2e19, po), (0x2e1a, 0x2e1a, pd), (0x2e1b, 0x2e1b, po), (0x2e1c, 0x2e1c, pi),
  (0x2e1d, 0x2e1d, pf), (0x2e1e, 0x2e1f, po), (0x2e20, 0x2e20, pi), (0x2e21, 0x2e21, pf),
  (0x2e2a, 0x2e2e, po), (0x2e2f, 0x2e2f, lm), (0x2e30, 0x2e39, po), (0x2e3a, 0x2e3b, pd),
  (0x2e3c, 0x2e3f, po), (0x2e40, 0x2e40, pd), (0x2e41, 0x2e41, po), (0x2e42, 0x2e42, ps),
  (0x2e43, 0x2e4f, po), (0x2e50, 0x2e51, so), (0x2e52, 0x2e54, po), (0x2e5d, 0x2e5d, pd),
  (0x2e80, 0x2e99, so), (0x2e9b, 0x2ef3, so), (0x2f00, 0x2fd5, so), (0x2ff0, 0x2ffb, so),
  (0x3000, 0x3000, zs), (0x3001, 0x3003, po), (0x3004, 0x3004, so), (0x3005, 0x3005, lm),
  (0x3006, 0x3006, lo), (0x3007, 0x3007, nl), (0x3012, 0x3013, so), (0x301c, 0x301c, pd),
  (0x301d, 0x301d, ps), (0x301e, 0x301f, pe), (0x3020, 0x3020, so), (0x3021, 0x3029, nl),
  (0x302a, 0x302d, mn), (0x302e, 0x302f, mc), (0x3030, 0x3030, pd), (0x3031, 0x3035, lm),
  (0x3036, 0x3037, so), (0x3038, 0x303a, nl), (0x303b, 0x303b, lm), (0x303c, 0x303c, lo),
  (0x303d, 0x303d, po), (0x303e, 0x303f, so), (0x3041, 0x3096, lo), (0x3099, 0x309a, mn),
  (0x309b, 0x309c, sk), (0x309d, 0x309e, lm), (0x309f, 0x309f, lo), (0x30a0, 0x30a0, pd),
  (0x30a1, 0x30fa, lo), (0x30fb, 0x30fb, po), (0x30fc, 0x30fe, lm), (0x30ff, 0x30ff, lo),
  (0x3105, 0x312f, lo), (0x3131, 0x318e, lo), (0x3190, 0x3191, so), (0x3192, 0x3195, no),
  (0x3196, 0x319f, so), (0x31a0, 0x31bf, lo), (0x31c0, 0x31e3, so), (0x31f0, 0x31ff, lo),
  (0x3200, 0x321e, so), (0x3220, 0x3229, no), (0x322a, 0x3247, so), (0x3248, 0x324f, no),
  (0x3250, 0x3250, so), (0x3251, 0x325f, no), (0x3260, 0x327f, so), (0x3280, 0x3289, no),
  (0x328a, 0x32b0, so), (0x32b1, 0x32bf, no), (0x32c0, 0x33ff, so), (0x3400, 0x4dbf, lo),
  (0x4dc0, 0x4dff, so), (0x4e00, 0xa014, lo), (0xa015, 0xa015, lm), (0xa016, 0xa48c, lo),
  (0xa490, 0xa4c6, so), (0xa4d0, 0xa4f7, lo), (0xa4f8, 0xa4fd, lm), (0xa4fe, 0xa4ff, po),
  (0xa500, 0xa60b, lo), (0xa60c, 0xa60c, lm), (0xa60d, 0xa60f, po), (0xa610, 0xa61f, lo),
  (0xa620, 0xa629, nd), (0xa62a, 0xa62b, lo), (0xa66e, 0xa66e, lo), (0xa66f, 0xa66f, mn),
  (0xa670, 0xa672, me), (0xa673, 0xa673, po), (0xa674, 0xa67d, mn), (0xa67e, 0xa67e, po),
  (0xa67f, 0xa67f, lm), (0xa69c, 0xa69d, lm), (0xa69e, 0xa69f, mn), (0xa6a0, 0xa6e5, lo),
  (0xa6e6, 0xa6ef, nl), (0xa6f0, 0xa6f1, mn), (0xa6f2, 0xa6f7, po), (0xa700, 0xa716, sk),
  (0xa717, 0xa71f, lm), (0xa720, 0xa721, sk), (0xa730, 0xa731, ll), (0xa770, 0xa770, lm),
  (0xa771, 0xa778, ll), (0xa788, 0xa788, lm), (0xa789, 0xa78a, sk), (0xa78f, 0xa78f, lo),
  (0xa794, 0xa795, ll), (0xa7ab, 0xa7ae, lu), (0xa7af, 0xa7af, ll), (0xa7b0, 0xa7b4, lu),
  (0xa7c5, 0xa7c7, lu), (0xa7c8, 0xa7c8, ll), (0xa7c9, 0xa7c9, lu), (0xa7ca, 0xa7ca, ll),
  (0xa7d0, 0xa7d0, lu), (0xa7d1, 0xa7d1, ll), (0xa7d3, 0xa7d3, ll), (0xa7f2, 0xa7f4, lm),
  (0xa7f5, 0xa7f5, lu), (0xa7f6, 0xa7f6, ll), (0xa7f7, 0xa7f7, lo), (0xa7f8, 0xa7f9, lm),
  (0xa7fa, 0xa7fa, ll), (0xa7fb, 0xa801, lo), (0xa802, 0xa802, mn), (0xa803, 0xa805, lo),
  (0xa806, 0xa806, mn), (0xa807, 0xa80a, lo), (0xa80b, 0xa80b, mn), (0xa80c, 0xa822, lo),
  (0xa823, 0xa824, mc), (0xa825, 0xa826, mn), (0xa827, 0xa827, mc), (0xa828, 0xa82b, so),
  (0xa82c, 0xa82c, mn), (0xa830, 0xa835, no), (0xa836, 0xa837, so), (0xa838, 0xa838, sc),
  (0xa839, 0xa839, so), (0xa840, 0xa873, lo), (0xa874, 0xa877, po), (0xa880, 0xa881, mc),
  (0xa882, 0xa8b3, lo), (0xa8b4, 0xa8c3, mc), (0xa8c4, 0xa8c5, mn), (0xa8ce, 0xa8cf, po),
  (0xa8d0, 0xa8d9, nd), (0xa8e0, 0xa8f1, mn), (0xa8f2, 0xa8f7, lo), (0xa8f8, 0xa8fa, po),
  (0xa8fb, 0xa8fb, lo), (0xa8fc, 0xa8fc, po), (0xa8fd, 0xa8fe, lo), (0xa8ff, 0xa8ff, mn),
  (0xa900, 0xa909, nd), (0xa90a, 0xa925, lo), (0xa926, 0xa92d, mn), (0xa92e, 0xa92f, po),
  (0xa930, 0xa946, lo), (0xa947, 0xa951, mn), (0xa952, 0xa953, mc), (0xa95f, 0xa95f, po),
  (0xa960, 0xa97c, lo), (0xa980, 0xa982, mn), (0xa983, 0xa983, mc), (0xa984, 0xa9b2, lo),
  (0xa9b3, 0xa9b3, mn), (0xa9b4, 0xa9b5, mc), (0xa9b6, 0xa9b9, mn), (0xa9ba, 0xa9bb, mc),
  (0xa9bc, 0xa9bd, mn), (0xa9be, 0xa9c0, mc), (0xa9c1, 0xa9cd, po), (0xa9cf, 0xa9cf, lm),
  (0xa9d0, 0xa9d9, nd), (0xa9de, 0xa9df, po), (0xa9e0, 0xa9e4, lo), (0xa9e5, 0xa9e5, mn),
  (0xa9e6, 0xa9e6, lm), (0xa9e7, 0xa9ef, lo), (0xa9f0, 0xa9f9, nd), (0xa9fa, 0xa9fe, lo),
  (0xaa00, 0xaa28, lo), (0xaa29, 0xaa2e, mn), (0xaa2f, 0xaa30, mc), (0xaa31, 0xaa32, mn),
  (0xaa33, 0xaa34, mc), (0xaa35, 0xaa36, mn), (0xaa40, 0xaa42, lo), (0xaa43, 0xaa43, mn),
  (0xaa44, 0xaa4b, lo), (0xaa4c, 0xaa4c, mn), (0xaa4d, 0xaa4d, mc), (0xaa50, 0xaa59, nd),
  (0xaa5c, 0xaa5f, po), (0xaa60, 0xaa6f, lo), (0xaa70, 0xaa70, lm), (0xaa71, 0xaa76, lo),
  (0xaa77, 0xaa79, so), (0xaa7a, 0xaa7a, lo), (0xaa7b, 0xaa7b, mc), (0xaa7c, 0xaa7c, mn),
  (0xaa7d, 0xaa7d, mc), (0xaa7e, 0xaaaf, lo), (0xaab0, 0xaab0, mn), (0xaab1, 0xaab1, lo),
  (0xaab2, 0xaab4, mn), (0xaab5, 0xaab6, lo), (0xaab7, 0xaab8, mn), (0xaab9, 0xaabd, lo),
  (0xaabe, 0xaabf, mn), (0xaac0, 0xaac0, lo), (0xaac1, 0xaac1, mn), (0xaac2, 0xaac2, lo),
  (0xaadb, 0xaadc, lo), (0xaadd, 0xaadd, lm), (0xaade, 0xaadf, po), (0xaae0, 0xaaea, lo),
  (0xaaeb, 0xaaeb, mc), (0xaaec, 0xaaed, mn), (0xaaee, 0xaaef, mc), (0xaaf0, 0xaaf1, po),
  (0xaaf2, 0xaaf2, lo), (0xaaf3, 0xaaf4, lm), (0xaaf5, 0xaaf5, mc), (0xaaf6, 0xaaf6, mn),
  (0xab01, 0xab06, lo), (0xab09, 0xab0e, lo), (0xab11, 0xab16, lo), (0xab20, 0xab26, lo),
  (0xab28, 0xab2e, lo), (0xab30, 0xab5a, ll), (0xab5b, 0xab5b, sk), (0xab5c, 0xab5f, lm),
  (0xab60, 0xab68, ll), (0xab69, 0xab69, lm), (0xab6a, 0xab6b, sk), (0xab70, 0xabbf, ll),
  (0xabc0, 0xabe2, lo), (0xabe3, 0xabe4, mc), (0xabe5, 0xabe5, mn), (0xabe6, 0xabe7, mc),
  (0xabe8, 0xabe8, mn), (0xabe9, 0xabea, mc), (0xabeb, 0xabeb, po), (0xabec, 0xabec, mc),
  (0xabed, 0xabed, mn), (0xabf0, 0xabf9, nd), (0xac00, 0xd7a3, lo), (0xd7b0, 0xd7c6, lo),
  (0xd7cb, 0xd7fb, lo), (0xd800, 0xdfff, cs), (0xe000, 0xf8ff, co), (0xf900, 0xfa6d, lo),
  (0xfa70, 0xfad9, lo), (0xfb00, 0xfb06, ll), (0xfb13, 0xfb17, ll), (0xfb1d, 0xfb1d, lo),
  (0xfb1e, 0xfb1e, mn), (0xfb1f, 0xfb28, lo), (0xfb29, 0xfb29, sm), (0xfb2a, 0xfb36, lo),
  (0xfb38, 0xfb3c, lo), (0xfb3e, 0xfb3e, lo), (0xfb40, 0xfb41, lo), (0xfb43, 0xfb44, lo),
  (0xfb46, 0xfbb1, lo), (0xfbb2, 0xfbc2, sk), (0xfbd3, 0xfd3d, lo), (0xfd3e, 0xfd3e, pe),
  (0xfd3f, 0xfd3f, ps), (0xfd40, 0xfd4f, so), (0xfd50, 0xfd8f, lo), (0xfd92, 0xfdc7, lo),
  (0xfdcf, 0xfdcf, so), (0xfdf0, 0xfdfb, lo), (0xfdfc, 0xfdfc, sc), (0xfdfd, 0xfdff, so),
  (0xfe00, 0xfe0f, mn), (0xfe10, 0xfe16, po), (0xfe17, 0xfe17, ps), (0xfe18, 0xfe18, pe),
  (0xfe19, 0xfe19, po), (0xfe20, 0xfe2f, mn), (0xfe30, 0xfe30, po), (0xfe31, 0xfe32, pd),
  (0xfe33, 0xfe34, pc), (0xfe45, 0xfe46, po), (0xfe47, 0xfe47, ps), (0xfe48, 0xfe48, pe),
  (0xfe49, 0xfe4c, po), (0xfe4d, 0xfe4f, pc), (0xfe50, 0xfe52, po), (0xfe54, 0xfe57, po),
  (0xfe58, 0xfe58, pd), (0xfe5f, 0xfe61, po), (0xfe62, 0xfe62, sm), (0xfe63, 0xfe63, pd),
  (0xfe64, 0xfe66, sm), (0xfe68, 0xfe68, po), (0xfe69, 0xfe69, sc), (0xfe6a, 0xfe6b, po),
  (0xfe70, 0xfe74, lo), (0xfe76, 0xfefc, lo), (0xfeff, 0xfeff, cf), (0xff01, 0xff03, po),
  (0xff04, 0xff04, sc), (0xff05, 0xff07, po), (0xff08, 0xff08, ps), (0xff09, 0xff09, pe),
  (0xff0a, 0xff0a, po), (0xff0b, 0xff0b, sm), (0xff0c, 0xff0c, po), (0xff0d, 0xff0d, pd),
  (0xff0e, 0xff0f, po), (0xff10, 0xff19, nd), (0xff1a, 0xff1b, po), (0xff1c, 0xff1e, sm),
  (0xff1f, 0xff20, po), (0xff21, 0xff3a, lu), (0xff3b, 0xff3b, ps), (0xff3c, 0xff3c, po),
  (0xff3d, 0xff3d, pe), (0xff3e, 0xff3e, sk), (0xff3f, 0xff3f, pc), (0xff40, 0xff40, sk),
  (0xff41, 0xff5a, ll), (0xff5b, 0xff5b, ps), (0xff5c, 0xff5c, sm), (0xff5d, 0xff5d, pe),
  (0xff5e, 0xff5e, sm), (0xff5f, 0xff5f, ps), (0xff60, 0xff60, pe), (0xff61, 0xff61, po),
  (0xff62, 0xff62, ps), (0xff63, 0xff63, pe), (0xff64, 0xff65, po), (0xff66, 0xff6f, lo),
  (0xff70, 0xff70, lm), (0xff71, 0xff9d, lo), (0xff9e, 0xff9f, lm), (0xffa0, 0xffbe, lo),
  (0xffc2, 0xffc7, lo), (0xffca, 0xffcf, lo), (0xffd2, 0xffd7, lo), (0xffda, 0xffdc, lo),
  (0xffe0, 0xffe1, sc), (0xffe2, 0xffe2, sm), (0xffe3, 0xffe3, sk), (0xffe4, 0xffe4, so),
  (0xffe5, 0xffe6, sc), (0xffe8, 0xffe8, so), (0xffe9, 0xffec, sm), (0xffed, 0xffee, so),
  (0xfff9, 0xfffb, cf), (0xfffc, 0xfffd, so)]

/-- The runs above U+FFFF. -/
def astralRuns : Array (Nat × Nat × Category) := #[
  (0x10000, 0x1000b, lo), (0x1000d, 0x10026, lo), (0x10028, 0x1003a, lo), (0x1003c, 0x1003d, lo),
  (0x1003f, 0x1004d, lo), (0x10050, 0x1005d, lo), (0x10080, 0x100fa, lo), (0x10100, 0x10102, po),
  (0x10107, 0x10133, no), (0x10137, 0x1013f, so), (0x10140, 0x10174, nl), (0x10175, 0x10178, no),
  (0x10179, 0x10189, so), (0x1018a, 0x1018b, no), (0x1018c, 0x1018e, so), (0x10190, 0x1019c, so),
  (0x101a0, 0x101a0, so), (0x101d0, 0x101fc, so), (0x101fd, 0x101fd, mn), (0x10280, 0x1029c, lo),
  (0x102a0, 0x102d0, lo), (0x102e0, 0x102e0, mn), (0x102e1, 0x102fb, no), (0x10300, 0x1031f, lo),
  (0x10320, 0x10323, no), (0x1032d, 0x10340, lo), (0x10341, 0x10341, nl), (0x10342, 0x10349, lo),
  (0x1034a, 0x1034a, nl), (0x10350, 0x10375, lo), (0x10376, 0x1037a, mn), (0x10380, 0x1039d, lo),
  (0x1039f, 0x1039f, po), (0x103a0, 0x103c3, lo), (0x103c8, 0x103cf, lo), (0x103d0, 0x103d0, po),
  (0x103d1, 0x103d5, nl), (0x10400, 0x10427, lu), (0x10428, 0x1044f, ll), (0x10450, 0x1049d, lo),
  (0x104a0, 0x104a9, nd), (0x104b0, 0x104d3, lu), (0x104d8, 0x104fb, ll), (0x10500, 0x10527, lo),
  (0x10530, 0x10563, lo), (0x1056f, 0x1056f, po), (0x10570, 0x1057a, lu), (0x1057c, 0x1058a, lu),
  (0x1058c, 0x10592, lu), (0x10594, 0x10595, lu), (0x10597, 0x105a1, ll), (0x105a3, 0x105b1, ll),
  (0x105b3, 0x105b9, ll), (0x105bb, 0x105bc, ll), (0x10600, 0x10736, lo), (0x10740, 0x10755, lo),
  (0x10760, 0x10767, lo), (0x10780, 0x10785, lm), (0x10787, 0x107b0, lm), (0x107b2, 0x107ba, lm),
  (0x10800, 0x10805, lo), (0x10808, 0x10808, lo), (0x1080a, 0x10835, lo), (0x10837, 0x10838, lo),
  (0x1083c, 0x1083c, lo), (0x1083f, 0x10855, lo), (0x10857, 0x10857, po), (0x10858, 0x1085f, no),
  (0x10860, 0x10876, lo), (0x10877, 0x10878, so), (0x10879, 0x1087f, no), (0x10880, 0x1089e, lo),
  (0x108a7, 0x108af, no), (0x108e0, 0x108f2, lo), (0x108f4, 0x108f5, lo), (0x108fb, 0x108ff, no),
  (0x10900, 0x10915, lo), (0x10916, 0x1091b, no), (0x1091f, 0x1091f, po), (0x10920, 0x10939, lo),
  (0x1093f, 0x1093f, po), (0x10980, 0x109b7, lo), (0x109bc, 0x109bd, no), (0x109be, 0x109bf, lo),
  (0x109c0, 0x109cf, no), (0x109d2, 0x109ff, no), (0x10a00, 0x10a00, lo), (0x10a01, 0x10a03, mn),
  (0x10a05, 0x10a06, mn), (0x10a0c, 0x10a0f, mn), (0x10a10, 0x10a13, lo), (0x10a15, 0x10a17, lo),
  (0x10a19, 0x10a35, lo), (0x10a38, 0x10a3a, mn), (0x10a3f, 0x10a3f, mn), (0x10a40, 0x10a48, no),
  (0x10a50, 0x10a58, po), (0x10a60, 0x10a7c, lo), (0x10a7d, 0x10a7e, no), (0x10a7f, 0x10a7f, po),
  (0x10a80, 0x10a9c, lo), (0x10a9d, 0x10a9f, no), (0x10ac0, 0x10ac7, lo), (0x10ac8, 0x10ac8, so),
  (0x10ac9, 0x10ae4, lo), (0x10ae5, 0x10ae6, mn), (0x10aeb, 0x10aef, no), (0x10af0, 0x10af6, po),
  (0x10b00, 0x10b35, lo), (0x10b39, 0x10b3f, po), (0x10b40, 0x10b55, lo), (0x10b58, 0x10b5f, no),
  (0x10b60, 0x10b72, lo), (0x10b78, 0x10b7f, no), (0x10b80, 0x10b91, lo), (0x10b99, 0x10b9c, po),
  (0x10ba9, 0x10baf, no), (0x10c00, 0x10c48, lo), (0x10c80, 0x10cb2, lu), (0x10cc0, 0x10cf2, ll),
  (0x10cfa, 0x10cff, no), (0x10d00, 0x10d23, lo), (0x10d24, 0x10d27, mn), (0x10d30, 0x10d39, nd),
  (0x10e60, 0x10e7e, no), (0x10e80, 0x10ea9, lo), (0x10eab, 0x10eac, mn), (0x10ead, 0x10ead, pd),
  (0x10eb0, 0x10eb1, lo), (0x10f00, 0x10f1c, lo), (0x10f1d, 0x10f26, no), (0x10f27, 0x10f27, lo),
  (0x10f30, 0x10f45, lo), (0x10f46, 0x10f50, mn), (0x10f51, 0x10f54, no), (0x10f55, 0x10f59, po),
  (0x10f70, 0x10f81, lo), (0x10f82, 0x10f85, mn), (0x10f86, 0x10f89, po), (0x10fb0, 0x10fc4, lo),
  (0x10fc5, 0x10fcb, no), (0x10fe0, 0x10ff6, lo), (0x11000, 0x11000, mc), (0x11001, 0x11001, mn),
  (0x11002, 0x11002, mc), (0x11003, 0x11037, lo), (0x11038, 0x11046, mn), (0x11047, 0x1104d, po),
  (0x11052, 0x11065, no), (0x11066, 0x1106f, nd), (0x11070, 0x11070, mn), (0x11071, 0x11072, lo),
  (0x11073, 0x11074, mn), (0x11075, 0x11075, lo), (0x1107f, 0x11081, mn), (0x11082, 0x11082, mc),
  (0x11083, 0x110af, lo), (0x110b0, 0x110b2, mc), (0x110b3, 0x110b6, mn), (0x110b7, 0x110b8, mc),
  (0x110b9, 0x110ba, mn), (0x110bb, 0x110bc, po), (0x110bd, 0x110bd, cf), (0x110be, 0x110c1, po),
  (0x110c2, 0x110c2, mn), (0x110cd, 0x110cd, cf), (0x110d0, 0x110e8, lo), (0x110f0, 0x110f9, nd),
  (0x11100, 0x11102, mn), (0x11103, 0x11126, lo), (0x11127, 0x1112b, mn), (0x1112c, 0x1112c, mc),
  (0x1112d, 0x11134, mn), (0x11136, 0x1113f, nd), (0x11140, 0x11143, po), (0x11144, 0x11144, lo),
  (0x11145, 0x11146, mc), (0x11147, 0x11147, lo), (0x11150, 0x11172, lo), (0x11173, 0x11173, mn),
  (0x11174, 0x11175, po), (0x11176, 0x11176, lo), (0x11180, 0x11181, mn), (0x11182, 0x11182, mc),
  (0x11183, 0x111b2, lo), (0x111b3, 0x111b5, mc), (0x111b6, 0x111be, mn), (0x111bf, 0x111c0, mc),
  (0x111c1, 0x111c4, lo), (0x111c5, 0x111c8, po), (0x111c9, 0x111cc, mn), (0x111cd, 0x111cd, po),
  (0x111ce, 0x111ce, mc), (0x111cf, 0x111cf, mn), (0x111d0, 0x111d9, nd), (0x111de, 0x111df, po),
  (0x111e1, 0x111f4, no), (0x11200, 0x11211, lo), (0x11213, 0x1122b, lo), (0x1122c, 0x1122e, mc),
  (0x1122f, 0x11231, mn), (0x11232, 0x11233, mc), (0x11234, 0x11234, mn), (0x11235, 0x11235, mc),
  (0x11236, 0x11237, mn), (0x11238, 0x1123d, po), (0x1123e, 0x1123e, mn), (0x11280, 0x11286, lo),
  (0x11288, 0x11288, lo), (0x1128a, 0x1128d, lo), (0x1128f, 0x1129d, lo), (0x1129f, 0x112a8, lo),
  (0x112a9, 0x112a9, po), (0x112b0, 0x112de, lo), (0x112df, 0x112df, mn), (0x112e0, 0x112e2, mc),
  (0x112e3, 0x112ea, mn), (0x112f0, 0x112f9, nd), (0x11300, 0x11301, mn), (0x11302, 0x11303, mc),
  (0x11305, 0x1130c, lo), (0x1130f, 0x11310, lo), (0x11313, 0x11328, lo), (0x1132a, 0x11330, lo),
  (0x11332, 0x11333, lo), (0x11335, 0x11339, lo), (0x1133b, 0x1133c, mn), (0x1133d, 0x1133d, lo),
  (0x1133e, 0x1133f, mc), (0x11340, 0x11340, mn), (0x11341, 0x11344, mc), (0x11347, 0x11348, mc),
  (0x1134b, 0x1134d, mc), (0x11350, 0x11350, lo), (0x11357, 0x11357, mc), (0x1135d, 0x11361, lo),
  (0x11362, 0x11363, mc), (0x11366, 0x1136c, mn), (0x11370, 0x11374, mn), (0x11400, 0x11434, lo),
  (0x11435, 0x11437, mc), (0x11438, 0x1143f, mn), (0x11440, 0x11441, mc), (0x11442, 0x11444, mn),
  (0x11445, 0x11445, mc), (0x11446, 0x11446, mn), (0x11447, 0x1144a, lo), (0x1144b, 0x1144f, po),
  (0x11450, 0x11459, nd), (0x1145a, 0x1145b, po), (0x1145d, 0x1145d, po), (0x1145e, 0x1145e, mn),
  (0x1145f, 0x11461, lo), (0x11480, 0x114af, lo), (0x114b0, 0x114b2, mc), (0x114b3, 0x114b8, mn),
  (0x114b9, 0x114b9, mc), (0x114ba, 0x114ba, mn), (0x114bb, 0x114be, mc), (0x114bf, 0x114c0, mn),
  (0x114c1, 0x114c1, mc), (0x114c2, 0x114c3, mn), (0x114c4, 0x114c5, lo), (0x114c6, 0x114c6, po),
  (0x114c7, 0x114c7, lo), (0x114d0, 0x114d9, nd), (0x11580, 0x115ae, lo), (0x115af, 0x115b1, mc),
  (0x115b2, 0x115b5, mn), (0x115b8, 0x115bb, mc), (0x115bc, 0x115bd, mn), (0x115be, 0x115be, mc),
  (0x115bf, 0x115c0, mn), (0x115c1, 0x115d7, po), (0x115d8, 0x115db, lo), (0x115dc, 0x115dd, mn),
  (0x11600, 0x1162f, lo), (0x11630, 0x11632, mc), (0x11633, 0x1163a, mn), (0x1163b, 0x1163c, mc),
  (0x1163d, 0x1163d, mn), (0x1163e, 0x1163e, mc), (0x1163f, 0x11640, mn), (0x11641, 0x11643, po),
  (0x11644, 0x11644, lo), (0x11650, 0x11659, nd), (0x11660, 0x1166c, po), (0x11680, 0x116aa, lo),
  (0x116af, 0x116af, mc), (0x116b0, 0x116b5, mn), (0x116b6, 0x116b6, mc), (0x116b7, 0x116b7, mn),
  (0x116b8, 0x116b8, lo), (0x116b9, 0x116b9, po), (0x116c0, 0x116c9, nd), (0x11700, 0x1171a, lo),
  (0x1171d, 0x1171f, mn), (0x11720, 0x11721, mc), (0x11722, 0x11725, mn), (0x11726, 0x11726, mc),
  (0x11727, 0x1172b, mn), (0x11730, 0x11739, nd), (0x1173a, 0x1173b, no), (0x1173c, 0x1173e, po),
  (0x1173f, 0x1173f, so), (0x11740, 0x11746, lo), (0x11800, 0x1182b, lo), (0x1182c, 0x1182e, mc),
  (0x1182f, 0x11837, mn), (0x11838, 0x11838, mc), (0x11839, 0x1183a, mn), (0x1183b, 0x1183b, po),
  (0x118a0, 0x118bf, lu), (0x118c0, 0x118df, ll), (0x118e0, 0x118e9, nd), (0x118ea, 0x118f2, no),
  (0x118ff, 0x11906, lo), (0x11909, 0x11909, lo), (0x1190c, 0x11913, lo), (0x11915, 0x11916, lo),
  (0x11918, 0x1192f, lo), (0x11930, 0x11935, mc), (0x11937, 0x11938, mc), (0x1193b, 0x1193c, mn),
  (0x1193d, 0x1193d, mc), (0x1193e, 0x1193e, mn), (0x11943, 0x11943, mn), (0x11944, 0x11946, po),
  (0x11950, 0x11959, nd), (0x119a0, 0x119a7, lo), (0x119aa, 0x119d0, lo), (0x119d1, 0x119d3, mc),
  (0x119d4, 0x119d7, mn), (0x119da, 0x119db, mn), (0x119dc, 0x119df, mc), (0x119e0, 0x119e0, mn),
  (0x119e1, 0x119e1, lo), (0x119e2, 0x119e2, po), (0x119e3, 0x119e3, lo), (0x119e4, 0x119e4, mc),
  (0x11a00, 0x11a00, lo), (0x11a01, 0x11a0a, mn), (0x11a0b, 0x11a32, lo), (0x11a33, 0x11a38, mn),
  (0x11a39, 0x11a39, mc), (0x11a3a, 0x11a3a, lo), (0x11a3b, 0x11a3e, mn), (0x11a3f, 0x11a46, po),
  (0x11a47, 0x11a47, mn), (0x11a50, 0x11a50, lo), (0x11a51, 0x11a56, mn), (0x11a57, 0x11a58, mc),
  (0x11a59, 0x11a5b, mn), (0x11a5c, 0x11a89, lo), (0x11a8a, 0x11a96, mn), (0x11a97, 0x11a97, mc),
  (0x11a98, 0x11a99, mn), (0x11a9a, 0x11a9c, po), (0x11a9d, 0x11a9d, lo), (0x11a9e, 0x11aa2, po),
  (0x11ab0, 0x11af8, lo), (0x11c00, 0x11c08, lo), (0x11c0a, 0x11c2e, lo), (0x11c2f, 0x11c2f, mc),
  (0x11c30, 0x11c36, mn), (0x11c38, 0x11c3d, mn), (0x11c3e, 0x11c3e, mc), (0x11c3f, 0x11c3f, mn),
  (0x11c40, 0x11c40, lo), (0x11c41, 0x11c45, po), (0x11c50, 0x11c59, nd), (0x11c5a, 0x11c6c, no),
  (0x11c70, 0x11c71, po), (0x11c72, 0x11c8f, lo), (0x11c92, 0x11ca7, mn), (0x11ca9, 0x11ca9, mc),
  (0x11caa, 0x11cb0, mn), (0x11cb1, 0x11cb1, mc), (0x11cb2, 0x11cb3, mn), (0x11cb4, 0x11cb4, mc),
  (0x11cb5, 0x11cb6, mn), (0x11d00, 0x11d06, lo), (0x11d08, 0x11d09, lo), (0x11d0b, 0x11d30, lo),
  (0x11d31, 0x11d36, mn), (0x11d3a, 0x11d3a, mn), (0x11d3c, 0x11d3d, mn), (0x11d3f, 0x11d45, mn),
  (0x11d46, 0x11d46, lo), (0x11d47, 0x11d47, mn), (0x11d50, 0x11d59, nd), (0x11d60, 0x11d65, lo),
  (0x11d67, 0x11d68, lo), (0x11d6a, 0x11d89, lo), (0x11d8a, 0x11d8e, mc), (0x11d90, 0x11d91, mn),
  (0x11d93, 0x11d94, mc), (0x11d95, 0x11d95, mn), (0x11d96, 0x11d96, mc), (0x11d97, 0x11d97, mn),
  (0x11d98, 0x11d98, lo), (0x11da0, 0x11da9, nd), (0x11ee0, 0x11ef2, lo), (0x11ef3, 0x11ef4, mn),
  (0x11ef5, 0x11ef6, mc), (0x11ef7, 0x11ef8, po), (0x11fb0, 0x11fb0, lo), (0x11fc0, 0x11fd4, no),
  (0x11fd5, 0x11fdc, so), (0x11fdd, 0x11fe0, sc), (0x11fe1, 0x11ff1, so), (0x11fff, 0x11fff, po),
  (0x12000, 0x12399, lo), (0x12400, 0x1246e, nl), (0x12470, 0x12474, po), (0x12480, 0x12543, lo),
  (0x12f90, 0x12ff0, lo), (0x12ff1, 0x12ff2, po), (0x13000, 0x1342e, lo), (0x13430, 0x13438, cf),
  (0x14400, 0x14646, lo), (0x16800, 0x16a38, lo), (0x16a40, 0x16a5e, lo), (0x16a60, 0x16a69, nd),
  (0x16a6e, 0x16a6f, po), (0x16a70, 0x16abe, lo), (0x16ac0, 0x16ac9, nd), (0x16ad0, 0x16aed, lo),
  (0x16af0, 0x16af4, mn), (0x16af5, 0x16af5, po), (0x16b00, 0x16b2f, lo), (0x16b30, 0x16b36, mn),
  (0x16b37, 0x16b3b, po), (0x16b3c, 0x16b3f, so), (0x16b40, 0x16b43, lm), (0x16b44, 0x16b44, po),
  (0x16b45, 0x16b45, so), (0x16b50, 0x16b59, nd), (0x16b5b, 0x16b61, no), (0x16b63, 0x16b77, lo),
  (0x16b7d, 0x16b8f, lo), (0x16e40, 0x16e5f, lu), (0x16e60, 0x16e7f, ll), (0x16e80, 0x16e96, no),
  (0x16e97, 0x16e9a, po), (0x16f00, 0x16f4a, lo), (0x16f4f, 0x16f4f, mn), (0x16f50, 0x16f50, lo),
  (0x16f51, 0x16f87, mc), (0x16f8f, 0x16f92, mn), (0x16f93, 0x16f9f, lm), (0x16fe0, 0x16fe1, lm),
  (0x16fe2, 0x16fe2, po), (0x16fe3, 0x16fe3, lm), (0x16fe4, 0x16fe4, mn), (0x16ff0, 0x16ff1, mc),
  (0x17000, 0x187f7, lo), (0x18800, 0x18cd5, lo), (0x18d00, 0x18d08, lo), (0x1aff0, 0x1aff3, lm),
  (0x1aff5, 0x1affb, lm), (0x1affd, 0x1affe, lm), (0x1b000, 0x1b122, lo), (0x1b150, 0x1b152, lo),
  (0x1b164, 0x1b167, lo), (0x1b170, 0x1b2fb, lo), (0x1bc00, 0x1bc6a, lo), (0x1bc70, 0x1bc7c, lo),
  (0x1bc80, 0x1bc88, lo), (0x1bc90, 0x1bc99, lo), (0x1bc9c, 0x1bc9c, so), (0x1bc9d, 0x1bc9e, mn),
  (0x1bc9f, 0x1bc9f, po), (0x1bca0, 0x1bca3, cf), (0x1cf00, 0x1cf2d, mn), (0x1cf30, 0x1cf46, mn),
  (0x1cf50, 0x1cfc3, so), (0x1d000, 0x1d0f5, so), (0x1d100, 0x1d126, so), (0x1d129, 0x1d164, so),
  (0x1d165, 0x1d166, mc), (0x1d167, 0x1d169, mn), (0x1d16a, 0x1d16c, so), (0x1d16d, 0x1d172, mc),
  (0x1d173, 0x1d17a, cf), (0x1d17b, 0x1d182, mn), (0x1d183, 0x1d184, so), (0x1d185, 0x1d18b, mn),
  (0x1d18c, 0x1d1a9, so), (0x1d1aa, 0x1d1ad, mn), (0x1d1ae, 0x1d1ea, so), (0x1d200, 0x1d241, so),
  (0x1d242, 0x1d244, mn), (0x1d245, 0x1d245, so), (0x1d2e0, 0x1d2f3, no), (0x1d300, 0x1d356, so),
  (0x1d360, 0x1d378, no), (0x1d400, 0x1d419, lu), (0x1d41a, 0x1d433, ll), (0x1d434, 0x1d44d, lu),
  (0x1d44e, 0x1d454, ll), (0x1d456, 0x1d467, ll), (0x1d468, 0x1d481, lu), (0x1d482, 0x1d49b, ll),
  (0x1d49c, 0x1d49c, lu), (0x1d49e, 0x1d49f, lu), (0x1d4a2, 0x1d4a2, lu), (0x1d4a5, 0x1d4a6, lu),
  (0x1d4a9, 0x1d4ac, lu), (0x1d4ae, 0x1d4b5, lu), (0x1d4b6, 0x1d4b9, ll), (0x1d4bb, 0x1d4bb, ll),
  (0x1d4bd, 0x1d4c3, ll), (0x1d4c5, 0x1d4cf, ll), (0x1d4d0, 0x1d4e9, lu), (0x1d4ea, 0x1d503, ll),
  (0x1d504, 0x1d505, lu), (0x1d507, 0x1d50a, lu), (0x1d50d, 0x1d514, lu), (0x1d516, 0x1d51c, lu),
  (0x1d51e, 0x1d537, ll), (0x1d538, 0x1d539, lu), (0x1d53b, 0x1d53e, lu), (0x1d540, 0x1d544, lu),
  (0x1d546, 0x1d546, lu), (0x1d54a, 0x1d550, lu), (0x1d552, 0x1d56b, ll), (0x1d56c, 0x1d585, lu),
  (0x1d586, 0x1d59f, ll), (0x1d5a0, 0x1d5b9, lu), (0x1d5ba, 0x1d5d3, ll), (0x1d5d4, 0x1d5ed, lu),
  (0x1d5ee, 0x1d607, ll), (0x1d608, 0x1d621, lu), (0x1d622, 0x1d63b, ll), (0x1d63c, 0x1d655, lu),
  (0x1d656, 0x1d66f, ll), (0x1d670, 0x1d689, lu), (0x1d68a, 0x1d6a5, ll), (0x1d6a8, 0x1d6c0, lu),
  (0x1d6c1, 0x1d6c1, sm), (0x1d6c2, 0x1d6da, ll), (0x1d6db, 0x1d6db, sm), (0x1d6dc, 0x1d6e1, ll),
  (0x1d6e2, 0x1d6fa, lu), (0x1d6fb, 0x1d6fb, sm), (0x1d6fc, 0x1d714, ll), (0x1d715, 0x1d715, sm),
  (0x1d716, 0x1d71b, ll), (0x1d71c, 0x1d734, lu), (0x1d735, 0x1d735, sm), (0x1d736, 0x1d74e, ll),
  (0x1d74f, 0x1d74f, sm), (0x1d750, 0x1d755, ll), (0x1d756, 0x1d76e, lu), (0x1d76f, 0x1d76f, sm),
  (0x1d770, 0x1d788, ll), (0x1d789, 0x1d789, sm), (0x1d78a, 0x1d78f, ll), (0x1d790, 0x1d7a8, lu),
  (0x1d7a9, 0x1d7a9, sm), (0x1d7aa, 0x1d7c2, ll), (0x1d7c3, 0x1d7c3, sm), (0x1d7c4, 0x1d7c9, ll),
  (0x1d7ca, 0x1d7ca, lu), (0x1d7cb, 0x1d7cb, ll), (0x1d7ce, 0x1d7ff, nd), (0x1d800, 0x1d9ff, so),
  (0x1da00, 0x1da36, mn), (0x1da37, 0x1da3a, so), (0x1da3b, 0x1da6c, mn), (0x1da6d, 0x1da74, so),
  (0x1da75, 0x1da75, mn), (0x1da76, 0x1da83, so), (0x1da84, 0x1da84, mn), (0x1da85, 0x1da86, so),
  (0x1da87, 0x1da8b, po), (0x1da9b, 0x1da9f, mn), (0x1daa1, 0x1daaf, mn), (0x1df00, 0x1df09, ll),
  (0x1df0a, 0x1df0a, lo), (0x1df0b, 0x1df1e, ll), (0x1e000, 0x1e006, mn), (0x1e008, 0x1e018, mn),
  (0x1e01b, 0x1e021, mn), (0x1e023, 0x1e024, mn), (0x1e026, 0x1e02a, mn), (0x1e100, 0x1e12c, lo),
  (0x1e130, 0x1e136, mn), (0x1e137, 0x1e13d, lm), (0x1e140, 0x1e149, nd), (0x1e14e, 0x1e14e, lo),
  (0x1e14f, 0x1e14f, so), (0x1e290, 0x1e2ad, lo), (0x1e2ae, 0x1e2ae, mn), (0x1e2c0, 0x1e2eb, lo),
  (0x1e2ec, 0x1e2ef, mn), (0x1e2f0, 0x1e2f9, nd), (0x1e2ff, 0x1e2ff, sc), (0x1e7e0, 0x1e7e6, lo),
  (0x1e7e8, 0x1e7eb, lo), (0x1e7ed, 0x1e7ee, lo), (0x1e7f0, 0x1e7fe, lo), (0x1e800, 0x1e8c4, lo),
  (0x1e8c7, 0x1e8cf, no), (0x1e8d0, 0x1e8d6, mn), (0x1e900, 0x1e921, lu), (0x1e922, 0x1e943, ll),
  (0x1e944, 0x1e94a, mn), (0x1e94b, 0x1e94b, lm), (0x1e950, 0x1e959, nd), (0x1e95e, 0x1e95f, po),
  (0x1ec71, 0x1ecab, no), (0x1ecac, 0x1ecac, so), (0x1ecad, 0x1ecaf, no), (0x1ecb0, 0x1ecb0, sc),
  (0x1ecb1, 0x1ecb4, no), (0x1ed01, 0x1ed2d, no), (0x1ed2e, 0x1ed2e, so), (0x1ed2f, 0x1ed3d, no),
  (0x1ee00, 0x1ee03, lo), (0x1ee05, 0x1ee1f, lo), (0x1ee21, 0x1ee22, lo), (0x1ee24, 0x1ee24, lo),
  (0x1ee27, 0x1ee27, lo), (0x1ee29, 0x1ee32, lo), (0x1ee34, 0x1ee37, lo), (0x1ee39, 0x1ee39, lo),
  (0x1ee3b, 0x1ee3b, lo), (0x1ee42, 0x1ee42, lo), (0x1ee47, 0x1ee47, lo), (0x1ee49, 0x1ee49, lo),
  (0x1ee4b, 0x1ee4b, lo), (0x1ee4d, 0x1ee4f, lo), (0x1ee51, 0x1ee52, lo), (0x1ee54, 0x1ee54, lo),
  (0x1ee57, 0x1ee57, lo), (0x1ee59, 0x1ee59, lo), (0x1ee5b, 0x1ee5b, lo), (0x1ee5d, 0x1ee5d, lo),
  (0x1ee5f, 0x1ee5f, lo), (0x1ee61, 0x1ee62, lo), (0x1ee64, 0x1ee64, lo), (0x1ee67, 0x1ee6a, lo),
  (0x1ee6c, 0x1ee72, lo), (0x1ee74, 0x1ee77, lo), (0x1ee79, 0x1ee7c, lo), (0x1ee7e, 0x1ee7e, lo),
  (0x1ee80, 0x1ee89, lo), (0x1ee8b, 0x1ee9b, lo), (0x1eea1, 0x1eea3, lo), (0x1eea5, 0x1eea9, lo),
  (0x1eeab, 0x1eebb, lo), (0x1eef0, 0x1eef1, sm), (0x1f000, 0x1f02b, so), (0x1f030, 0x1f093, so),
  (0x1f0a0, 0x1f0ae, so), (0x1f0b1, 0x1f0bf, so), (0x1f0c1, 0x1f0cf, so), (0x1f0d1, 0x1f0f5, so),
  (0x1f100, 0x1f10c, no), (0x1f10d, 0x1f1ad, so), (0x1f1e6, 0x1f202, so), (0x1f210, 0x1f23b, so),
  (0x1f240, 0x1f248, so), (0x1f250, 0x1f251, so), (0x1f260, 0x1f265, so), (0x1f300, 0x1f3fa, so),
  (0x1f3fb, 0x1f3ff, sk), (0x1f400, 0x1f6d7, so), (0x1f6dd, 0x1f6ec, so), (0x1f6f0, 0x1f6fc, so),
  (0x1f700, 0x1f773, so), (0x1f780, 0x1f7d8, so), (0x1f7e0, 0x1f7eb, so), (0x1f7f0, 0x1f7f0, so),
  (0x1f800, 0x1f80b, so), (0x1f810, 0x1f847, so), (0x1f850, 0x1f859, so), (0x1f860, 0x1f887, so),
  (0x1f890, 0x1f8ad, so), (0x1f8b0, 0x1f8b1, so), (0x1f900, 0x1fa53, so), (0x1fa60, 0x1fa6d, so),
  (0x1fa70, 0x1fa74, so), (0x1fa78, 0x1fa7c, so), (0x1fa80, 0x1fa86, so), (0x1fa90, 0x1faac, so),
  (0x1fab0, 0x1faba, so), (0x1fac0, 0x1fac5, so), (0x1fad0, 0x1fad9, so), (0x1fae0, 0x1fae7, so),
  (0x1faf0, 0x1faf6, so), (0x1fb00, 0x1fb92, so), (0x1fb94, 0x1fbca, so), (0x1fbf0, 0x1fbf9, nd),
  (0x20000, 0x2a6df, lo), (0x2a700, 0x2b738, lo), (0x2b740, 0x2b81d, lo), (0x2b820, 0x2cea1, lo),
  (0x2ceb0, 0x2ebe0, lo), (0x2f800, 0x2fa1d, lo), (0x30000, 0x3134a, lo), (0xe0001, 0xe0001, cf),
  (0xe0020, 0xe007f, cf), (0xe0100, 0xe01ef, mn), (0xf0000, 0xffffd, co),
  (0x100000, 0x10fffd, co)]

/-- Runs in which two categories take turns: the first belongs to the first
code point and to every second one after it. -/
def alternatingRuns : List (Nat × Nat × Category × Category) := [
  (0x100, 0x137, lu, ll), (0x138, 0x148, ll, lu), (0x149, 0x178, ll, lu), (0x179, 0x17e, lu, ll),
  (0x183, 0x186, ll, lu), (0x1a1, 0x1a6, ll, lu), (0x1a7, 0x1aa, lu, ll), (0x1ab, 0x1ae, ll, lu),
  (0x1b4, 0x1b7, ll, lu), (0x1cc, 0x1dc, ll, lu), (0x1dd, 0x1ef, ll, lu), (0x1f3, 0x1f6, ll, lu),
  (0x1f9, 0x233, ll, lu), (0x247, 0x24f, ll, lu), (0x2ec, 0x2ef, lm, sk), (0x370, 0x373, lu, ll),
  (0x3d8, 0x3ef, lu, ll), (0x460, 0x481, lu, ll), (0x48a, 0x4c0, lu, ll), (0x4c1, 0x4ce, lu, ll),
  (0x4cf, 0x52f, ll, lu), (0xb3e, 0xb41, mc, mn), (0xf34, 0xf39, so, mn), (0xf3a, 0xf3d, ps, pe),
  (0x1a55, 0x1a58, mc, mn), (0x1a60, 0x1a63, mn, mc), (0x1e00, 0x1e95, lu, ll),
  (0x1e9e, 0x1eff, lu, ll), (0x2124, 0x212a, lu, so), (0x21d2, 0x21d5, sm, so),
  (0x2308, 0x230b, ps, pe), (0x2768, 0x2775, ps, pe), (0x27e6, 0x27ef, ps, pe),
  (0x2983, 0x2998, ps, pe), (0x29d8, 0x29db, ps, pe), (0x2c67, 0x2c6d, lu, ll),
  (0x2c81, 0x2ce3, ll, lu), (0x2ceb, 0x2cee, lu, ll), (0x2e02, 0x2e05, pi, pf),
  (0x2e22, 0x2e29, ps, pe), (0x2e55, 0x2e5c, ps, pe), (0x3008, 0x3011, ps, pe),
  (0x3014, 0x301b, ps, pe), (0xa640, 0xa66d, lu, ll), (0xa680, 0xa69b, lu, ll),
  (0xa722, 0xa72f, lu, ll), (0xa732, 0xa76f, lu, ll), (0xa779, 0xa77d, lu, ll),
  (0xa77e, 0xa787, lu, ll), (0xa78b, 0xa78e, lu, ll), (0xa790, 0xa793, lu, ll),
  (0xa796, 0xa7aa, lu, ll), (0xa7b5, 0xa7c4, ll, lu), (0xa7d5, 0xa7d9, ll, lu),
  (0xfe35, 0xfe44, ps, pe), (0xfe59, 0xfe5e, ps, pe), (0x111da, 0x111dd, lo, po),
  (0x116ab, 0x116ae, mn, mc), (0x1193f, 0x11942, lo, mc)]

/-! ## Look-up -/

/-- The run that holds `n`, by halving the part of the table between `low`
and `high`. The fuel bounds the number of halvings. -/
def search (runs : Array (Nat × Nat × Category)) (n : Nat) : Nat → Nat → Nat → Option Category
  | 0, _, _ => none
  | fuel + 1, low, high =>
    if low < high then
      let mid := (low + high) / 2
      match runs[mid]? with
      | none => none
      | some (first, last, c) =>
        if n < first then search runs n fuel low mid
        else if last < n then search runs n fuel (mid + 1) high
        else some c
    else none

/-- The category of the code point `n` in one table. -/
def find? (runs : Array (Nat × Nat × Category)) (n : Nat) : Option Category :=
  search runs n (runs.size + 1) 0 runs.size

/-- The category of `n` if it lies in an alternating run. -/
def findAlternating? (n : Nat) : Option Category :=
  (alternatingRuns.find? fun (first, last, _) => first ≤ n && n ≤ last).map
    fun (first, _, even, odd) => if (n - first) % 2 = 0 then even else odd

/-- The general category of a character. -/
def ofChar (c : Char) : Category :=
  let n := c.toNat
  let found :=
    if n < 0x80 then find? asciiRuns n
    else if n < 0x1000 then find? lowerRuns n <|> findAlternating? n
    else if n < 0x10000 then find? upperRuns n <|> findAlternating? n
    else find? astralRuns n
  found.getD cn

end Category

end Highlighting.Unicode
