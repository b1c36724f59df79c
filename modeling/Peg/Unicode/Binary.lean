import Peg.Unicode.GeneralCategory

/-!
# Binary properties

Properties of the Unicode standard, version 16.0, that a character has or
lacks. Those that the standard derives from others are derived here in the same
way; the rest are tables.

## Main definitions

* One set for each property.
* `binaryProperties`: all of them under their short and long names.
* `word`: the characters of words, as word boundaries see them.
* `isPrintable`: a character that is shown as itself in quoted text.
-/

namespace Peg.Unicode

/-- The characters with the property ASCII Hex Digit. -/
def asciiHexDigit : CharSet :=
  .ofCode "Bc975q5"

/-- The characters with the property Bidi Control. -/
def bidiControl : CharSet :=
  .ofCode "BRg0HCh1q4Bj3"

/-- The characters with the property Bidi Mirrored. -/
def bidiMirrored : CharSet :=
  .ofCode "B41i010s010t010B90f0DZ23CAd1CQc1a1Bi1e1Ex0Fc33530313313101048501h539110171v2350912i5194214n2
    f83k171BE5dC2023111253523dL7l251d807530441124401221a521ci13201020135162o1b14311214B6271B3501
    03452403410H40Ob33111e129B77Lv927CEKl551Ei1i010s010t0101111CGY70Bl0Bl0Bl0Bl0"

/-- The characters with the property Changes When Casefolded. -/
def changesWhenCasefolded : CharSet :=
  .ofCode "BtpCi0am17w010101010101010101010101010101010101010101010101010101020101010101010101110101010
    10101010101010101010101010101010101011101010111011122311123111101011102011121011307111111010
    10101010101020101010101010101021101210101010101010101010101010101010101010101010101010101010
    107111201310101010Gu0B60103080601210111g18m0c231101010101010101010101010112110112BeBc0101010
    10101010101010101010101010901010101010101010101010101010101010101010101010101010111010101010
    10201010101010101010101010101010101010101010101010101010101010101010101010101010101010101010
    1010102B1Bc0DAwB11050Wi5CIi96B622Iw010101010101010101010101010101010101010101010101010101010
    10101010101010101010101010101010101010101010101010101010101010101010101010101010101010101010
    51201010101010101010101010101010101010101010101010101010101010101010101010101010101010101010
    101010109785a78785b010101087gBb22255225b3c45225I903160B9fj0WqpBZ4BbBc01220101013102082101010
    10101010101010101010101010101010101010101010101010101010101010101010101010101010101010101010
    801040BHEl010101010101010101010101010101010101010101010j010101010101010101010101010Dr0101010
    10101030101010101010101010101010101010101010101010101010101010101010a01011101010104010201030
    1010101010101010101414101010101010101310113050101010o0YqC7VRk6c4BCppBHxB3DszEca1e1611BX6BeEd
    lDBuvXK0vBHO0x"

/-- The characters with the property Changes When Casemapped. -/
def changesWhenCasemapped : CharSet :=
  .ofCode "Btp6pBm0am1u1Br1Cb1r2d21104Ck1h6q1110113113142011207020113550a1Em0B632132106012101j1Ba3w141D
    o8El1B1aB2DAwB110502B622SoCd25CIia5B622F5030g0D5Eb201D9252B125271010101u2Bg1610321633254c521
    6I903160r0hv31WpBfBYeD411117Ct7331cB11050BHCyB9irDqd2Bp9e32241o1t2146o1Xw0sC7VRk6c4BCpp6pBH1
    C7Coz4zD8a1e16111a1e1611BW3BedBeCllalDAyBrXJ4BrBHN4Bv"

/-- The characters with the property Changes When Lowercased. -/
def changesWhenLowercased : CharSet :=
  .ofCode "BtpCtm16x01010101010101010101010101010101010101010101010101010102010101010101010201010101010
    10101010101010101010101010101010101110103110111223111231111010111020111210113071111110101010
    10101010201010101010101010211012101010101010101010101010101010101010101010101010101010101071
    11201310101010I10103080601210111g18z08010101010101010101010105020112BeBc01010101010101010101
    01010101010109010101010101010101010101010101010101010101010101010101110101010101020101010101
    01010101010101010101010101010101010101010101010101010101010101010101010101010101010102B1DC9B
    11050U2CdCIz06B622Iw010101010101010101010101010101010101010101010101010101010101010101010101
    01010101010101010101010101010101010101010101010101010101010101010101010101010901010101010101
    010101010101010101010101010101010101010101010101010101010101010101010101010101010109785a7878
    5b010101087o7878784b4b3c4b4I903160B9fj0WqpBZ4BbBc0122010101310208210101010101010101010101010
    101010101010101010101010101010101010101010101010101010101010101010101010801040BHEl0101010101
    01010101010101010101010101010101010j010101010101010101010101010Dr010101010101030101010101010
    101010101010101010101010101010101010101010101010a0101110101010401020103010101010101010101014
    14101010101010101310113050101010o0XVvpBHxB3DszEca1e1611BX6BeEdlDBuvXK0vBHO0x"

/-- The characters with the property Changes When Titlecased. -/
def changesWhenTitlecased : CharSet :=
  .ofCode "CppBm0B5n17101010101010101010101010101010101010101010101010101010102010101010101011101010101
    01010101010101010101010101010101010102010122010203050203220201010204020301020301040111110101
    01010101010111010101010101010121010301010101010101010101010101010101010101030101010101010101
    080211040101010151110113113142011207020113550a1Em0B70103032i0ry11321010101010101010101010141
    02020BgBb10101010101010101010101010101010109010101010101010101010101010101010101010101010101
    01010201010101010111010101010101010101010101010101010101010101010101010101010101010101010101
    01010101010101010101010BdB2DYo5CIi810Gm030g0D60101010101010101010101010101010101010101010101
    01010101010101010101010101010101010101010101010101010101010101010101010101010101010101010101
    01010101016501010101010101010101010101010101010101010101010101010101010101010101010101010101
    01010101010101885a78785a7878d2787878411603211832187a211Ji0xf40XfpBZqBb10311010106020a0101010
    10101010101010101010101010101010101010101010101010101010101010101010101010101010101010101010
    801040cB11050BHCz010101010101010101010101010101010101010101010j010101010101010101010101010Dr
    010101010101030101010101010101010101010101010101010101010101010101010101010a0102010101010404
    01120101010101010101010b01010101010101040102030501010q0Xw0sC7VRk6c4BDlpBI5B3DszEba1e1611BXvB
    eDhlDBuvXK0vBHO2x"

/-- The characters with the property Changes When Uppercased. -/
def changesWhenUppercased : CharSet :=
  .ofCode "CppBm0B5n17101010101010101010101010101010101010101010101010101010102010101010101011101010101
    01010101010101010101010101010101010102010122010203050203220201010204020301020301051111110101
    01010101011101010101010101011111030101010101010101010101010101010101010103010101010101010108
    0211040101010151110113113142011207020113550a1Em0B70103032i0ry1132101010101010101010101014102
    020BgBb1010101010101010101010101010101010901010101010101010101010101010101010101010101010101
    01020101010101011101010101010101010101010101010101010101010101010101010101010101010101010101
    010101010101010101010BdB2DC8B622V45CIi810Gm030g0D6010101010101010101010101010101010101010101
    01010101010101010101010101010101010101010101010101010101010101010101010101010101010101010101
    01010101010101650101010101010101010101010101010101010101010101010101010101010101010101010101
    010101010101010101885a78785a7878d2Bg114010321140332187a21140Jd0xf40XfpBZqBb10311010106020a01
    01010101010101010101010101010101010101010101010101010101010101010101010101010101010101010101
    01010801040cB11050BHCz010101010101010101010101010101010101010101010j010101010101010101010101
    010Dr010101010101030101010101010101010101010101010101010101010101010101010101010a01020101010
    1040401120101010101010101010b01010101010101040102030501010q0Xw0sC7VRk6c4BDlpBI5B3DszEba1e161
    1BXvBeDhlDBuvXK0vBHO2x"

/-- The characters with the property Dash. -/
def dash : CharSet :=
  .ofCode "B90BM40Bf0DXd0BCl0CF55Bp0B30f0Ku0DHg020v140s0Me0j0D30CEFs1B10a0Ep0DY80Iu0"

/-- The characters with the property Default Ignorable Code Point. -/
def defaultIgnorableCodePoint : CharSet :=
  .ofCode "Et0Sp0Tw0DC21BSz1Cd4CEr4q4BdfEQk0CDYzfGn0Eg0C78BZPj3FRz7BGUY5EJr"

/-- The characters with the property Deprecated. -/
def deprecated : CharSet :=
  .ofCode "J50BKp0CM3010CG11CKd5Td1BLIQ60"

/-- The characters with the property Diacritic. -/
def diacritic : CharSet :=
  .ofCode "Cm010Bz0604021NzEe1755h14091H14Ft0Bjg1q101110Dq741Dq14132BvqCjaBmay1Di7B59grBp0g033s0C20g0D2
    0g0D20g0Bb2Bo0g070Db0D20g0D20g0D11g0Dg0D30c510Cz0d4C31r0101041Bu211Bq0D4011B4144p610a1Tl2BAc
    1u0E4a90Jn2I40k720Bce2aCw0f0B28Bi1Bm0b1Bu1Bs5Cao406022BeBqChbB1aMd012b2d2d2d1DO02It0O25Cx3Cn
    0BGD60c110s1Ca1exCu2D11c0B10E70rhBl3B00Cn0c0B00E52Bt3Bf0Cs492Dk1VR40VdfHi010Bb0B91Bv0V80BGv5
    1B518Rp240El1Pv5B20q4L32ByaBd3Fc0B50C01Dc1Bq0C4092Cw1Ey1C81g0o634Ch211d1Cn030Df1Gz1Di0Da1D70
    Hh1H6140Ec0Cb0i0C90Lp0H6011C90Lt1n0FSseMGx0CRc4Bn6Po1P6gC81RN231611IMhB92mP42358726u3DZ6BpFe
    6Kf0Bp3Va1Ug6D1212"

/-- The characters with the property Emoji. -/
def emoji : CharSet :=
  .ofCode "z06059D3040IQd0c0G00m0Ci5f1K71c0Em0pa42Fj0Gf1a090Bm314902021204020112030318250105bb1201110i0
    21i5101131502141b15120511011k155132040202510201010603060a1f02040104210b1Bc290e0e0Kc1Mv2j1Bf0
    40BIi0c0Qp010ERVe0Fm0Eg1c1e029C3p11n0k028l1Eux2D321122Ca221Ha1Bqb51n7127c0232041d120819052c2
    8220104060306CdBcBx57224930113029Gbb40HvBa191F4D4c395Bj7e2a68"

/-- The characters with the property Emoji Component. -/
def emojiComponent : CharSet :=
  .ofCode "z06059ISb0Fx0CIMr0CORypO34BOg3BGJZ0Cn"

/-- The characters with the property Emoji Modifier. -/
def emojiModifier : CharSet :=
  .ofCode "FGTf4"

/-- The characters with the property Emoji Modifier Base. -/
def emojiModifierBase : CharSet :=
  .ofCode "KL10G30g3EVYf0Bo22022D912ali3042127010o0Fl140l041Eu234Cb0g290b0Pz02087609922Bk0Bp11110h21cGd
    2B68"

/-- The characters with the property Emoji Presentation. -/
def emojiPresentation : CharSet :=
  .ofCode "JPm1Fp33020Oh1l1BebB70j0d081h1518050l0711040207041s0z0104210Bp2o0e0Xv1Bf040ETV20Fm0Fa029C3p1
    0o0k02412l1Euwc81Bx1lcB644cg303By101F62Bqd31ni0q1d0CeCcBcBx60322243b178Gbb40HvBa191F4D4c395B
    j7e2a68"

/-- The characters with the property Extended Pictographic. -/
def extendedPictographic : CharSet :=
  .ofCode "Ep040IQd0c0G00m0Ci5f1K71c0Cn0By0pa42Fj0Gf1a090Bm3151b1D5aD92a1010603060a1f02040104210b4B9290
    e0e0Kc1Mv2j1Bf040BIi0c0Qp010ERVaH3d2v0Bo5c1e029iBkrea0k028139M15It8HdBcDjD8bCdB6c3Bk7a5B47uC
    9cBa191M8H4BCd"

/-- The characters with the property Extender. -/
def extender : CharSet :=
  .ofCode "F30Ow1Ye0M90Ri0Dt0Ch0Uw0Dj0CNv0Bk0Qz0L20Bw0FIx0B74Cv1Cl2BEJy0BQe0BAq0m0Dt0D00l1XCr0CFc1BP70r
    040BHz0I50D81Nu2BI70WBl1BGs110BFA01BHd0Xo2"

/-- The characters with the property Grapheme Link. -/
def graphemeLink : CharSet :=
  .ofCode "CO50Dj0Dj0Dj0Dj0Dj0Dj0Dj0D11g0Dg0D30Dj0Fl0F01BWp1u0Ed0S50Gb0Ct1By1EUr0BHNa0B10E70Dy0D00Il0Gu
    0ZUp0BQu0B50e0Bl0Dd1Dv0D80F00Cq0Dk2D50Dj0H00Dj0Da0D80Hh0H71Eh0Cb0i0C90Lp0H81C90Lt1SAs0"

/-- The characters with the property Hex Digit. -/
def hexDigit : CharSet :=
  .ofCode "Bc975q5CRQx975q5"

/-- The characters with the property Hyphen. -/
def hyphen : CharSet :=
  .ofCode "B90Dj0BIk0FBf0CF51DVp0Uj0CEEn0Ep0Cf0"

/-- The characters with the property IDS Binary Operator. -/
def idsBinaryOperator : CharSet :=
  .ofCode "NCw129Nt0"

/-- The characters with the property IDS Trinary Operator. -/
def idsTrinaryOperator : CharSet :=
  .ofCode "NCy1"

/-- The characters with the property IDS Unary Operator. -/
def idsUnaryOperator : CharSet :=
  .ofCode "NDa1"

/-- The characters with the property ID Compat Math Continue. -/
def idCompatMathContinue : CharSet :=
  .ofCode "Ey150IRi03a1eKb040m0EPKy0p0v0p0v0p0v0p0v0p0"

/-- The characters with the property ID Compat Math Start. -/
def idCompatMathStart : CharSet :=
  .ofCode "JHu040m0EPKy0p0v0p0v0p0v0p0v0p0"

/-- The characters with the property Ideographic. -/
def ideographic : CharSet :=
  .ofCode "NDi1p8e2BAtHB3BsWL3YIwK52CxBGAa0rGOf8BIdB59JYvKzVBoBTQnwELd6G52GE1eHZkfR9CQiP1BPuFH65EMf"

/-- The characters with the property Join Control. -/
def joinControl : CharSet :=
  .ofCode "ITw1"

/-- The characters with the property Logical Order Exception. -/
def logicalOrderException : CharSet :=
  .ofCode "DXc4Df4CZs220BNQy12011"

/-- The characters with the property Modifier Combining Mark. -/
def modifierCombiningMark : CharSet :=
  .ofCode "BT0120Dn06031Nd11230v0"

/-- The characters with the property Noncharacter Code Point. -/
def noncharacterCodePoint : CharSet :=
  .ofCode "CRKwvOm1CSAe1CSAe1CSAe1CSAe1CSAe1CSAe1CSAe1CSAe1CSAe1CSAe1CSAe1CSAe1CSAe1CSAe1CSAe1CSAe1"

/-- The characters with the property Other Alphabetic. -/
def otherAlphabetic : CharSet :=
  .ofCode "X90tcQ0d10111110C0aBcc16g0Ct6432140z0ufCuaCt1381213Cy0Bob366jBi12e1152a1t2Bm62121a0a1t2Bm441
    2140u130b2Bm71211l1m242Bm6212191a1u0Bn43212a0B44Bl6121281b1t2Bm6121281b1f0c3Bm61212a0a1t2C35
    1017i1Bp026i0Cr02511g0Eji9a1zD2b1023n342122633db10a3BTw1u1u1u1BuiF81y0Dab48G64Bl92jC21b2Bd4B
    ceBo2u821BlaBeiLgxBW1BfCLqvBGYk7y1Ju080n4Cg1Bef10Bl0B24sbB93BcbB10Bvdc081B92Be0122150B8450Gl
    7VR70CHb4BUe21153Vw3Bt0Ix1C70H72BhdB91b2B9890Bp2B0bi1Bl2Bcce1Ck8206020Ed9n3Bm62121a0a1Cc8102
    01311Cvc12CyhGl626t1Cae10CyaCvdH5cGv511213010Dy62540s9B6413iaBadLb716Cbl1dDe53011121030Bu411
    13Jo39110Bc632SAdgDWg01Bi73Cl1UZ80JRl61g261114Cs0CJz0CE8p6p6p"

/-- The characters with the property Other Default Ignorable Code Point. -/
def otherDefaultIgnorableCodePoint : CharSet :=
  .ofCode "Xj0DVz1BSz1CJr0EQu0CEKj0C78BJAFz01tCoDjGoDVz"

/-- The characters with the property Other Grapheme Extend. -/
def otherGraphemeExtend : CharSet :=
  .ofCode "CRa0o0Jy0o0Cu0o0Gg010411191Cv0o0Db0f0CNh0u0BCg0501051Ct0Bz1BD40EKp1BHDf0D00XMl1EYw0D80Hc0e09
    0Co090201250G80c0Gp0Ha0Rl0c0BQr0WBq1BAQz165BGUZ9Cn"

/-- The characters with the property Other ID Continue. -/
def otherIdContinue : CharSet :=
  .ofCode "F30Tz0EIx8BTk0BS11EQd0CELt0"

/-- The characters with the property Other ID Start. -/
def otherIdStart : CharSet :=
  .ofCode "GSd1CIx0l0EFo1"

/-- The characters with the property Other Lowercase. -/
def otherLowercase : CharSet :=
  .ofCode "Eq0f0Nx871u4Co0Bg0DS10DInBqd0yB0T50d0gcFvfXkpCBu1BHKe1Fu0Dl231Y2390ZEu0221B518CHF9Bp"

/-- The characters with the property Other Math. -/
def otherMath : CharSet :=
  .ofCode "Cm0Yh220q121HS00r2b0w3o1e1Btc403144i04029103460312112153354C34231111101421414h2110161061I23E
    o110o0h0Md1c854512134e01025o1Bl010t391Ji1v9L7lBr3w1CGCb01040Fv010CGExCc1By112021231b10161Bs1
    327161r131410361Jf2o1o1u1o1u1o1u1o1u1o172BdGAg31q1110201913101060401010121110201010101011102
    316131310191g52141g"

/-- The characters with the property Other Uppercase. -/
def otherUppercase : CharSet :=
  .ofCode "JDcfXapEVXsp6p6p"

/-- The characters with the property Pattern Syntax. -/
def patternSyntax : CharSet :=
  .ofCode "xea6q310q3y610111011404030n0v0IN4n8e2i19IhTzEgRhuBFfO8DjKp24of0CEC51H91"

/-- The characters with the property Pattern White Space. -/
def patternWhiteSpace : CharSet :=
  .ofCode "94i0Cs0IQ81o1"

/-- The characters with the property Prepended Concatenation Mark. -/
def prependedConcatenationMark : CharSet :=
  .ofCode "BQo5Fz0Bd0Ko1C80CUEa0f0"

/-- The characters with the property Quotation Mark. -/
def quotationMark : CharSet :=
  .ofCode "y040Dn0f0IP07p1DVr0Mp3d2CEJt3F9040Ci1"

/-- The characters with the property Radical. -/
def radical : CharSet :=
  .ofCode "MSop1CgcFx"

/-- The characters with the property Regional Indicator. -/
def regionalIndicator : CharSet :=
  .ofCode "FGEmp"

/-- The characters with the property Sentence Terminal. -/
def sentenceTerminal : CharSet :=
  .ofCode "x0c0g0BLl0E32F00B72Gu0Bp01031I51BX01Vy041Vh0Fi1Ed1B9050Iq1Ju3Ei1a121t2F71Bt1Zw0n192DM72Ii0d0
    m1Lx0BFZw0Hi1Gb030Km1Ce1Cn0E81E32E01Gx0WM6021Bn031Ep0c0g0Bt0CZw1BJh4B83F91D93Dj2Dl160g1Cg111
    D00Ia1D91Kd15eCx1Gx2Od010Gz1Cf1Lo1T81C21UOh1Dp0Bt1b0Pd1I80VIu0IEo0"

/-- The characters with the property Soft Dotted. -/
def softDotted : CharSet :=
  .ofCode "Cx1Fg0Ht0u0Bg0k0Iw0Cq010GW10Bf0d030Do0Ed0Lp0Fy1DBm0ELWl1Be1Be1Be1Be1Be1Be1Be1Be1Be1Be1Be1Be1
    CIm0Ih1q0"

/-- The characters with the property Terminal Punctuation. -/
def terminalPunctuation : CharSet :=
  .ofCode "x0a010b130X2080O90Bl0C00e012F00B7a10Gj1Bi517v0H91BJ81Es045In1Vx7Vh0Dg2Bz1Ed230B3321Iq1Ju3Ei1
    a112t2F74Bq1Zw0n192DM72Ii0d040a01131Lw1BFZv1Hh2Gb4Km1Ce1Cn0E72E32Dj0g1Gx0WM6021Bl213Ep0a010b
    130Bt020BE20Bc0BG60Fj0Im1E85Bw5Ch3BAg4B83F96D43Dj2Dl160g1Cg4D00Ia1D92c1Jy33eCx1Gx2Od010Gz1Cf
    141Li2B90Rx1C21BKr4TDl1Dp0Bt2a0Pd1I71VIu0IEn3"

/-- The characters with the property Unified Ideograph. -/
def unifiedIdeograph : CharSet :=
  .ofCode "OFsHB3BsWL3YQe11011a0101122CTPyBTQnwELd6G52GE1eHZkfR9EVeFH65EMf"

/-- The characters with the property Variation Selector. -/
def variationSelector : CharSet :=
  .ofCode "GOz210CKX4fBJBAoGn"

/-- The characters with the property White Space. -/
def whiteSpace : CharSet :=
  ⟨[⟨0x9, 0xD⟩, ⟨0x20, 0x20⟩, ⟨0x85, 0x85⟩, ⟨0xA0, 0xA0⟩, ⟨0x1680, 0x1680⟩, ⟨0x2000, 0x200A⟩,
    ⟨0x2028, 0x2029⟩, ⟨0x202F, 0x202F⟩, ⟨0x205F, 0x205F⟩, ⟨0x3000, 0x3000⟩]⟩

/-- Small letters. -/
def lowercase : CharSet :=
  lowercaseLetter.union otherLowercase

/-- Capital letters. -/
def uppercase : CharSet :=
  uppercaseLetter.union otherUppercase

/-- Letters, and marks that belong to them. -/
def alphabetic : CharSet :=
  unionOf [letter, letterNumber, lowercase, uppercase, otherAlphabetic]

/-- Symbols used in mathematics. -/
def math : CharSet :=
  mathSymbol.union otherMath

/-- Letters that have a case. -/
def cased : CharSet :=
  unionOf [lowercase, uppercase, titlecaseLetter]

/-- Characters that case mappings look past. -/
def caseIgnorable : CharSet :=
  unionOf [nonspacingMark, enclosingMark, format, modifierLetter, modifierSymbol,
    .ofCode "B3060b0Dg0Tz0N30E40HDv1a020CIS30Bq020Ex060b0"]

/-- Marks that extend the character before them. -/
def graphemeExtend : CharSet :=
  unionOf [nonspacingMark, enclosingMark, otherGraphemeExtend]

/-- Characters that marks can be put on. -/
def graphemeBase : CharSet :=
  (unionOf [other, lineSeparator, paragraphSeparator, graphemeExtend]).complement

/-- Characters that can begin an identifier. -/
def idStart : CharSet :=
  ((unionOf [letter, letterNumber, otherIdStart]).diff patternSyntax).diff patternWhiteSpace

/-- Characters that can follow in an identifier. -/
def idContinue : CharSet :=
  ((unionOf [idStart, nonspacingMark, spacingMark, decimalNumber, connectorPunctuation,
    otherIdContinue]).diff patternSyntax).diff patternWhiteSpace

/-- Identifier starts that stay so under normalisation. -/
def xidStart : CharSet :=
  idStart.diff (.ofCode "Yq0CY80Dj0JH31CDSx5La1D8010101010101010Hz1")

/-- Identifier characters that stay so under normalisation. -/
def xidContinue : CharSet :=
  idContinue.diff (.ofCode "Yq0MIw1CDSx5La1D8010101010101010")

/-- The characters of words: letters with their marks, digits, connectors and joiners. -/
def word : CharSet :=
  unionOf [alphabetic, mark, decimalNumber, connectorPunctuation, joinControl]

/-- The binary properties by name. -/
def binaryProperties : List NamedSet :=
  [⟨["ahex", "asciihexdigit"], asciiHexDigit⟩,
   ⟨["alpha", "alphabetic"], alphabetic⟩,
   ⟨["bidic", "bidicontrol"], bidiControl⟩,
   ⟨["bidim", "bidimirrored"], bidiMirrored⟩,
   ⟨["caseignorable", "ci"], caseIgnorable⟩,
   ⟨["cased"], cased⟩,
   ⟨["changeswhencasefolded", "cwcf"], changesWhenCasefolded⟩,
   ⟨["changeswhencasemapped", "cwcm"], changesWhenCasemapped⟩,
   ⟨["changeswhenlowercased", "cwl"], changesWhenLowercased⟩,
   ⟨["changeswhentitlecased", "cwt"], changesWhenTitlecased⟩,
   ⟨["changeswhenuppercased", "cwu"], changesWhenUppercased⟩,
   ⟨["dash"], dash⟩,
   ⟨["defaultignorablecodepoint", "di"], defaultIgnorableCodePoint⟩,
   ⟨["dep", "deprecated"], deprecated⟩,
   ⟨["dia", "diacritic"], diacritic⟩,
   ⟨["emoji"], emoji⟩,
   ⟨["ecomp", "emojicomponent"], emojiComponent⟩,
   ⟨["emod", "emojimodifier"], emojiModifier⟩,
   ⟨["ebase", "emojimodifierbase"], emojiModifierBase⟩,
   ⟨["emojipresentation", "epres"], emojiPresentation⟩,
   ⟨["extendedpictographic", "extpict"], extendedPictographic⟩,
   ⟨["ext", "extender"], extender⟩,
   ⟨["graphemebase", "grbase"], graphemeBase⟩,
   ⟨["graphemeextend", "grext"], graphemeExtend⟩,
   ⟨["graphemelink", "grlink"], graphemeLink⟩,
   ⟨["hex", "hexdigit"], hexDigit⟩,
   ⟨["hyphen"], hyphen⟩,
   ⟨["idsb", "idsbinaryoperator"], idsBinaryOperator⟩,
   ⟨["idst", "idstrinaryoperator"], idsTrinaryOperator⟩,
   ⟨["idsu", "idsunaryoperator"], idsUnaryOperator⟩,
   ⟨["idcompatmathcontinue"], idCompatMathContinue⟩,
   ⟨["idcompatmathstart"], idCompatMathStart⟩,
   ⟨["idc", "idcontinue"], idContinue⟩,
   ⟨["ids", "idstart"], idStart⟩,
   ⟨["ideo", "ideographic"], ideographic⟩,
   ⟨["joinc", "joincontrol"], joinControl⟩,
   ⟨["loe", "logicalorderexception"], logicalOrderException⟩,
   ⟨["lower", "lowercase"], lowercase⟩,
   ⟨["math"], math⟩,
   ⟨["mcm", "modifiercombiningmark"], modifierCombiningMark⟩,
   ⟨["nchar", "noncharactercodepoint"], noncharacterCodePoint⟩,
   ⟨["oalpha", "otheralphabetic"], otherAlphabetic⟩,
   ⟨["odi", "otherdefaultignorablecodepoint"], otherDefaultIgnorableCodePoint⟩,
   ⟨["ogrext", "othergraphemeextend"], otherGraphemeExtend⟩,
   ⟨["oidc", "otheridcontinue"], otherIdContinue⟩,
   ⟨["oids", "otheridstart"], otherIdStart⟩,
   ⟨["olower", "otherlowercase"], otherLowercase⟩,
   ⟨["omath", "othermath"], otherMath⟩,
   ⟨["otheruppercase", "oupper"], otherUppercase⟩,
   ⟨["patsyn", "patternsyntax"], patternSyntax⟩,
   ⟨["patternwhitespace", "patws"], patternWhiteSpace⟩,
   ⟨["pcm", "prependedconcatenationmark"], prependedConcatenationMark⟩,
   ⟨["qmark", "quotationmark"], quotationMark⟩,
   ⟨["radical"], radical⟩,
   ⟨["regionalindicator", "ri"], regionalIndicator⟩,
   ⟨["sentenceterminal", "sterm"], sentenceTerminal⟩,
   ⟨["sd", "softdotted"], softDotted⟩,
   ⟨["term", "terminalpunctuation"], terminalPunctuation⟩,
   ⟨["uideo", "unifiedideograph"], unifiedIdeograph⟩,
   ⟨["upper", "uppercase"], uppercase⟩,
   ⟨["variationselector", "vs"], variationSelector⟩,
   ⟨["space", "whitespace", "wspace"], whiteSpace⟩,
   ⟨["xidc", "xidcontinue"], xidContinue⟩,
   ⟨["xids", "xidstart"], xidStart⟩]

/-- A character is printable when it is a space or has a shape of its own, and
does not attach to the character before it. -/
def isPrintable (c : Char) : Bool :=
  c == ' ' || !((other.union separator).contains c || graphemeExtend.contains c)

/-- A letter, or a mark that belongs to one. -/
def isAlphabetic (c : Char) : Bool :=
  alphabetic.contains c

/-- A letter or a number of any kind. -/
def isAlphanumeric (c : Char) : Bool :=
  alphabetic.contains c || number.contains c

/-- A character of white space. -/
def isWhiteSpace (c : Char) : Bool :=
  whiteSpace.contains c

end Peg.Unicode
