import Peg.Unicode.Table

/-!
# General categories

The general category of the Unicode standard, version 16.0, sorts all code
points into thirty classes. Unions of them have names too.

## Main definitions

* One set for each category, and one for each named union.
* `generalCategories`: all of them under their short and long names.
-/

namespace Peg.Unicode

/-- The characters of category Uppercase Letter. -/
def uppercaseLetter : CharSet :=
  .ofCode "BtpCtm16x01010101010101010101010101010101010101010101010101010102010101010101010201010101010
    10101010101010101010101010101010101110103110111223111231111010111020111210113070202020101010
    10101010201010101010101010202012101010101010101010101010101010101010101010101010101010101071
    11201310101010I10103080601210111g18z0223010101010101010101010105020112BeBc010101010101010101
    01010101010101090101010101010101010101010101010101010101010101010101011101010101010201010101
    0101010101010101010101010101010101010101010101010101010101010101010101010101010101010102B1DC
    9B11050U2CdCIz06B622Iw0101010101010101010101010101010101010101010101010101010101010101010101
    01010101010101010101010101010101010101010101010101010101010101010101010101010109010101010101
    01010101010101010101010101010101010101010101010101010101010101010101010101010101010109785a78
    785b010101087C03c3c3c4b3Ha040322220346010101323a150Bp0CWkBbBc0122010101310208210101010101010
    101010101010101010101010101010101010101010101010101010101010101010101010101010101010801040BH
    El010101010101010101010101010101010101010101010j010101010101010101010101010Dr010101010101030
    101010101010101010101010101010101010101010101010101010101010a0101110101010401020103010101010
    10101010101414101010101010101310113050101010o0XVvpBHxB3DszEca1e1611BX6BeEdlDBuvXK0vBBUopqpqp
    q01120212317qpq1132716r113141036rpqpqpqpqpqpuoxoxoxoxox0ESdx"

/-- The characters of category Lowercase Letter. -/
def lowercaseLetter : CharSet :=
  .ofCode "CppBm0B5n17101010101010101010101010101010101010101010101010101010111010101010101011101010101
    01010101010101010101010101010101010102010122010203140203220201010201110203010212260202010101
    01010101011101010101010101011201030101010101010101010101010101010101010101010101010101010101
    6202110401010101Bw1qFd0103032i0ry1132101010101010101010101014102021BfBb101010101010101010101
    01010101010109010101010101010101010101010101010101010101010101010102010101010101110101010101
    0101010101010101010101010101010101010101010101010101010101010101010101010101010101010BcB4DC7
    B622V45CIi810D9B7Brc1xCu01010101010101010101010101010101010101010101010101010101010101010101
    01010101010101010101010101010101010101010101010101010101010101010101010101010101810101010101
    01010101010101010101010101010101010101010101010101010101010101010101010101010101010101885a78
    785a7878d2787878411603211832187a211Hm03130r04040218340Bh0CXvBb103110101040111550101010101010
    10101010101010101010101010101010101010101010101010101010101010101010101010101010101011701040
    cB11050BHCz010101010101010101010101010101010101010101010j010101010101010101010101010Dr010101
    01010121010101010101010101010101010101010101010101010101010101010101017101020101010104010201
    210101010101010101010505010101010101010401020301010101010q030WtB6587C7VRk6c4BDlpBI5B3DszEba1
    e1611BXvBeDhlDBuvXK0vBBUipq61hqpq310161aqpqpqpqpqpqpqpqpqrso15qo15qo15qo15qo1510BZ891j65CSvx"

/-- The characters of category Titlecase Letter. -/
def titlecaseLetter : CharSet :=
  .ofCode "Ml02020B20ICd78787c0f0Bb0"

/-- The characters of category Modifier Letter. -/
def modifierLetter : CharSet :=
  .ofCode "T4h4be47010Dp050Na0Ge0Ek1Hh140v09030Eg0En0BIc0Dj0Pp0BWq0Cz0Qz0Mw5EuBqd0yB0T50d0gcDGf1Gp0Fb0N
    10B7450Cp1Cl2BEJy0BIq5Hi0D60s1Dd8C80n0Cx231N10m0Dt0D00l1Cv390WZi0B91CE051B518BNn0w0ZR43O42B4
    1PacBs110RNg31611NEpBpFl6BA50BF30"

/-- The characters of category Other Letter. -/
def otherLetter : CharSet :=
  .ofCode "Eq0f0H4043Fs0Wzq43B9v19z11Cq10o1a220g01ttCgb0owllB6o7a5n15hB4BnBh30i079ge47212l16103330g0d11
    2e1a085412l16111111v310j2g8121l16111430i0f1n0b7212l16111430u112f0h015321331101131323bm0Bg712
    1m1f30q22021u047121m191430v111f1h8121B420g05282o55h3n181026BmBb11c5Bn110141n1019119024n3w0Br
    71zr4D7B6k0g5433031724cc0D5J4132610132B4132w132610132e1Bk132BuB1fD5R72g1p5C2677hdiehec12fBfB
    40Bvy1Bg742x105BxauBdt24bB74pBim9BgEwBah7Bitd1aB7qzB52atD53151130BE23DH3Bjom9616161616161616
    Pb0Bh04Cd801Ch405B61ClhvBcfO8HB3BsWLo1BFqBvB38Hf4fa1Bu0BdBxEp0Cv03612131mtBfeBdBq53011bramps
    7BaB9428a41B4n217kf15303Bd1031242010o13a70e525259616E1ytLYbcm4BcJAsK52CxBv0191c141011111CzxK
    2iBr2BhB4bD841DqCx91B82u35252522zb1p1i111e2dyDeKts3BcBbvdj176B1at2z47DkC5CqB38BfCkBfcIm9la7E
    85201B711302mam9uBti11alapByBj61Bs0f3121sB6s3sz71rrBhalaidhD2C0F3zB2310IgB561g2Bnsa08lB6hBak
    rmcBgBl120dB8woqzt0208y30cBbe3l010zh1oj1Br610131e197BaB27212l16111430i0c4u910201B110p010B8Bg
    i3k2uBbk110F4BaB53B0Bbk0BnB6d0BzqB16F5B7Fv72027111nf010Cm72B2g010s0aB370l0bB9j0iC0Fjwv81B0h0
    BdtD46111B1l0p5111ve0J3if01c1xDg0C7ZlGeFfCV8CofBDrh5pEGy5Q6HI1tBWyPs7uhC6htiBbBfk5iM3B3L9C25
    0EvGOf8BIdB59JOnI2f0t220e38KzCM4Cy5c3879JKw0NxB8x0IxtiB7NgqGdt20Nr613111e1FgBL731q1110201913
    101060401010121110201010101011102316131310191g52141gESsBTQnwELd6G52GE1eHZkfR9CQiP1BPuFH65EMf"

/-- The characters of category Nonspacing Mark. -/
def nonspacingMark : CharSet :=
  .ofCode "VcD3Hn4HdB810111110C0aBckg0Ct6252113z0uqCjaBm890o3181214B72Bn8B6n1vBj010474036a1t0Bm04380k1q
    021Bl041412230u130b1Bl0441140k1m510Bm020138071b1u0Bp0c0Be030Bj012521371b1t0Bm0206051k1s1Bl14
    380k1t0C007210Ci026c7Cq028b6C11r01010Bjd14115a1z90Cu3151121p142g3d02160f0Tj2BAa2t1u1u1Bs1168
    02a90B9210D91y0Da2419062G3120Bm0161010276920Bcd1fBd3Bc0141050B48c1w32112Bk0113012Bm721E821c1
    6406031FiBrU0c403bDHa2Dx0CovPe3Cz1BGFw049w1C81Hk03040p150E71qhd0B27paBa2Bc02321B30Bv52121c08
    0Bb0Bf012215110B6180Gm02040VR40UhfgfBB10Ga0E54BUe21153B4240El1Px3Bt4It1C73ByaBd3Df0BieB5021a
    2Bd32170Bp2B0417Bq0c1Bg8a320Cn220116020Ed037l1Bl130B1634By5d01010e1Cd72210n0Cc5104111Gm36111
    r1Cd72011Cy0102510Ct0102314H7811H411040E032140w9B4523809522Bac11La61510Cal261111De530111610C
    013010Jn1b1Bg45010n0FSl06eMGgb32CRc4Bn6BD40Br3C90UZk1FApB92mP42h726u3E42CCzBi4Bd80e0m41eBLs6
    1g261114Cs0Eg6Kf0Bp3O43H21Ug6D16BGORxGn"

/-- The characters of category Spacing Mark. -/
def spacingMark : CharSet :=
  .ofCode "CM30Bj0228311Be1Bm26121a0B70Bm2Bu0Bm28011Bh1Bm0106121a0Cu1113212a0B52Bp3Bp1Bm014211191s0e1Bm
    25212a0B61C3267i1J61Br0Er1406021p1a226l12520a2BU00u0Dl07711Jm3224115G81Bm010901185E10Bc05014
    11Bp0u04120Bo0221031Bc781Er0l0FGm1BGUz120Cg1BefDy1Bb0Bc14122D2121o0B9010D102150Gl1111110BBJn
    010Dj0B9241D70o1Bn0Bc291d0Cl23110Eq2v1Bm113212290a1Cc27020131110Ct28130Cy2601320Gl26320D5281
    10D101160Cv01140H9290Gv511402010Dy28340Cc0t1Bq0Lb0e0Cy07020Fx44110Jq1c0Bc18110SAo2DWkBiCw1BA
    Qz165"

/-- The characters of category Enclosing Mark. -/
def enclosingMark : CharSet :=
  .ofCode "BG81GBw0BRi312BKNn2"

/-- The characters of category Decimal Number. -/
def decimalNumber : CharSet :=
  .ofCode "Bc9BRq9Dq9Fi9Lg9Da9Da9Da9Da9Da9Da9Da9Da9Da9Co9Da9By9Hq9By9BZq9B29Ic9Dk9Em969F29Ce9Dq969BLRq9
    Su9B29Fi9m9Ce9La9WSu9BNa9CIm969W49Dk9Bo9E09Hq9Ji9Da9Ke9Cu96jC49Lq9Cu9Se9Ce9Gu9By9Lq9SA69CN29
    Ce9Dq9Ou9BACu9CZ0BdCNs9Lq9Ny9Gv9Xp9FC69"

/-- The characters of category Letter Number. -/
def letterNumber : CharSet :=
  .ofCode "GH22CW7y23DZ20p8e2BGLv9YS8BgMs080Dq4IUqD2"

/-- The characters of category Other Number. -/
def otherNumber : CharSet :=
  .ofCode "Ey15022CNh5Kg5Dc2Dp6G16h8M19BDxjBFn9Nc0BUt03569FifB50U6BnC6lRitBMh0BGk3Du9u71ew9B3eBGD45YHlB
    8Bt3h1JhqB03BL07p6B38C34m5Eg12f2B9Bs8Bg1u2C34Cw7o7B56J65JsuEe9B63D46DqjKjjBLh1Ly8Y7iXnkUR26W
    6mBBK9jcjD0oFVi8ZtBm1213C4B81eBAqc"

/-- The characters of category Connector Punctuation. -/
def connectorPunctuation : CharSet :=
  .ofCode "Cn0ISn1j0CIRq1o2Gn0"

/-- The characters of category Dash Punctuation. -/
def dashPunctuation : CharSet :=
  .ofCode "B90BM40Bf0DXd0BCl0CF55DVl020v140s0Me0j0D30CEFs1B10a0Ep0DY80Iu0"

/-- The characters of category Open Punctuation. -/
def openPunctuation : CharSet :=
  .ofCode "B40Be0v0EAu010CAe0CPi030B20Bj0f0Rm010u0BE60101010101010C80w010101010L8010101010101010101010B
    s010x0BDh0101010p0i0101010Lw0101010103010101020CECp0Fz0t01010101010101030h01010Eq0Be0v03020"

/-- The characters of category Close Punctuation. -/
def closePunctuation : CharSet :=
  .ofCode "B50Bf0v0EAt010CAe0CQp0Bj0f0Rm010u0BE60101010101010C80w010101010L8010101010101010101010Bs010x
    0BDh0101010B80101010Lw0101010103010101021CECm0G10t01010101010101030h01010Eq0Bf0v02020"

/-- The characters of category Initial Punctuation. -/
def initialPunctuation : CharSet :=
  .ofCode "Er0IPg02120p0DU00104020f030"

/-- The characters of category Final Punctuation. -/
def finalPunctuation : CharSet :=
  .ofCode "F70IP1030s0DU00104020f030"

/-- The characters of category Other Punctuation. -/
def otherPunctuation : CharSet :=
  .ofCode "x212201011a131r0Bw050e170Ti080My5B50Bi02020B81k111d012C23Cu0B7dGh2Biev0H91a0Dw0Dc0Dd0Ku0c0K7
    0Ci0a1Eoe10D40C2441D35Er0R08Vh0Dg2Bz1Ed212B1513Ip1G01Dk615Eg1a6s2Dg3Bn4Bq1Bs7b0X61878823223a
    1019DLm311D40Dz1422028111021a41923101c22Lw2Bl0F90BFSy1Hh2Cr0a0D75Kk3Ce1B4210Bd1Bb0Cpcg1Dg3Di
    1g1Gx0WM4620m0k1233213726011E5212201011a131r0B0021Le2Sk0Bc0Li0Un0Fj0v0Hk8B20D46Bu6Ch3BAg4B83
    F96D1113Di3Bc1C7340d012Cg5Cz0Ia111D64a110Cw0GymCx2scC40Dm2H00Hc2Eb0Ck7Cb214Cl9Fz0Cn4B61Rx1C2
    cEv0BFk4DDo1PZv1Dp0Bt480Pc2I73J30UZo0IEn4DDf0Xy1"

/-- The characters of category Math Symbol. -/
def mathSymbol : CharSet :=
  .ofCode "B70g2Bp010B9040B10v0Va0On2HEj0d0B32d2Dv0B3460Bw45140202070v12010vHfw1Ci0uoB45N1090Bi7D30Jc42
    uafH4DmmBq4v2H5Bck25CEW40Ww012Ek0g2Bp010Dn063DSx1CDAp0p0v0p0v0p0v0p0v0p0GIs1"

/-- The characters of category Currency Symbol. -/
def currencySymbol : CharSet :=
  .ofCode "B00Dh3BIx0Df0Nu1Nu170Gt0Hb0Q50CQb0CKcwBLBb0XLv0D00Ea0G3131ITa3CBJi0CQw0"

/-- The characters of category Modifier Symbol. -/
def modifierSymbol : CharSet :=
  .ofCode "Cm010Bz0604030Oh3cd56101gD90e1BJm0GJ0012b2d2d2d1EO41BGJvm91Cv1BB40e1VYugYr010Ei0COTr4"

/-- The characters of category Other Symbol. -/
def otherSymbol : CharSet :=
  .ofCode "Em0204010BB50He1Dj1Fq0a0j1Gv0Ob0Kd0Dm510Do0Fr0B50Kv2f01225k01010Dp7151153Fh1Uw9U30U20EdxJt99
    8BN711311a0116510101040b1e01110Bm194231111161u21101uHg74j262C81tpB36BzmaC9C5mF2181Bh8D21GvB8
    B7BsH3O8Bbl16B22v1CwGd5Jx1Bap1CgcFxqf40d1c0l161Jc149wB190gubt80fvaB2fIvHB4BrXRkBiY13a110Px2W
    QmfDj0B92Ng03041d1Ip8Blg221c30BbB8BU21Qf0DKm0CJ174gUPe350WGe0EFfGngM3EcD7BoGtaB22Bn52m17t4Bo
    lBt30F6CeBH5O7Bj3Be71d11BW80DCs0Dl0U1B74Crce2e1e1B0nEgBksdB74871e5EaGy5U74g3c3Da4Cm6b40fb4Bj
    896B38t2b41BqJfcd2c395Bj7e2a687E21Cj"

/-- The characters of category Space Separator. -/
def spaceSeparator : CharSet :=
  .ofCode "w0Dj0FZj0CPjaB00Bb0EH40"

/-- The characters of category Line Separator. -/
def lineSeparator : CharSet :=
  .ofCode "IUo0"

/-- The characters of category Paragraph Separator. -/
def paragraphSeparator : CharSet :=
  .ofCode "IUp0"

/-- The characters of category Control. -/
def control : CharSet :=
  .ofCode "0vCnw"

/-- The characters of category Format. -/
def format : CharSet :=
  .ofCode "Et0BLu5m0Fc0Bd0Ko1C80EDv0CEs4q4Bd419CIWn0Gx2EP50f0JRmfBLHs3FRz7BGUY60uCn"

/-- The characters of category Private Use. -/
def privateUse : CharSet :=
  .ofCode "CJGwGVrBLUE0CSAd2CSAd"

/-- The characters of category Unassigned. -/
def unassigned : CharSet :=
  .ofCode "Yo1637010k0L10B21Be130Bj7r36aHi0Bo1CtdBn1Bd1f0s110b4v024Gl08121m0701241912147132051p1306321m
    07020202110532132164016h9309030m0702051a030311e41c670308121m0702051912136332051i920623042201
    0222232c3523041151dl4d030n0g190304620311141a6m030n0a051903046252041a03bd030Bf03063g1q030i2o0
    90117213601085a13bBm3tB0201050o010n1501070a14vC00B03B30B00f0dB0Fi01411Kh041701041B5041x04170
    1041f0Bl041Bv1w2q5Ce161Sl2Ch6m8o8kbd0302bCm1a5a5q5Ch6B74By9v0c3c312B615aB83q5b2Bq1Bt0t1b5a5e
    1vBcC50Em7Bo2f2Bq4B71b7B74Ou161B216180101010v1Bh0f0e160j13090Ct0c1r0d2xexeDw3SilbkBYc1w0Jp4B
    901411Bk62do87070707070707070Dixq0ChbFypC80Ce1Cv4B70Cm0Ce8Bc0BFHp2Bj8JojF47Fq120108kBn2a5Bk7
    By7c5D8au2C60b3x0Bj8e1a1Cvns96161687070Bo3Di1a5LYcbn3Bd3JKu1CyB17b54q050102020DhfMd1Bi61vB65
    Bf0j04350Dr110Fa261616132707951c0q0j020f1exDf433B92Cg0d21BaBaDlt2Bdes3B08u4B74u0B13eB5Ee1a5B
    03B03B47Bgac0f07020b0f07022BgbIn8m98n60B609Bw6110B802211n0C079Bbj024x2r41BrBk3k1Be0248030t13
    3a696BsvB33c8Bi2t1r4q64b7C7C1BiBfcBf6Ba7a5B22t72Frv0B60312f3BiB87B6lqB1sjn8C63B08Bw911p6a5Bh
    0i7B38Co0kai0BbBp701040f0b5Bn4a5408121m0702050a12131151471725aa01110B20a0111040a0272sCk05tC0
    7aElBi1B2xBxaa5diBm5a5krr1f3nF4BoCrCbb81118020u021c8aBx81Ba1bqC07CbcC16aF1yda590B90e9t2w1m0e
    C07020B82102097a56020B102066aIlp6h0B52tCc1eBecZnCtD305aFgCV7CrcBEu9EGz4Q7HI0BmBW5Pt6v0a3C90a
    5u169By9a070l4jLzBmFhCjCsC33Bl6hBr5a2dGOg7BIeB4aJO6407020I3e1s311d47L0CM3Cz4d296a18EF7Gy5M4C
    3Ba1n8D8BnGu9B31FekByDdkbkbCf8pDqCd0Bz021112140c01070Bt0418070s040501270Jg1I41Tie50fBEnv56Fw
    70h1702054Bqw1D3B92e1a32IvvgBm41MvB6FxB731Nb704020f0Fh1gB4C43a32VsBwC3BpFd40r0201110a0401015
    13101010302011101010101020114070404010a0h43050hBf2HhB83Csbf1f0f0B19EuBjtcB83962d6E9BBc3h2d2D
    b3Cn5c31ec3Bk7a5B47u1c32BpJgbe1d2a4Bk6f1b596E30CuBClBTQovELe5G61GE2dHZleRaCQhP2BPtFH74EMgBDG
    L41tCoDjGoCRMnCSAe1CSAe1"

/-- The surrogate code points, which are no characters. -/
def surrogate : CharSet :=
  ⟨[⟨0xD800, 0xDFFF⟩]⟩

/-- The union of some sets. -/
def unionOf (sets : List CharSet) : CharSet :=
  sets.foldl CharSet.union .empty

/-- The union Cased Letter. -/
def casedLetter : CharSet :=
  unionOf [uppercaseLetter, lowercaseLetter, titlecaseLetter]

/-- The union Letter. -/
def letter : CharSet :=
  unionOf [uppercaseLetter, lowercaseLetter, titlecaseLetter, modifierLetter, otherLetter]

/-- The union Mark. -/
def mark : CharSet :=
  unionOf [nonspacingMark, spacingMark, enclosingMark]

/-- The union Number. -/
def number : CharSet :=
  unionOf [decimalNumber, letterNumber, otherNumber]

/-- The union Punctuation. -/
def punctuation : CharSet :=
  unionOf [connectorPunctuation, dashPunctuation, openPunctuation, closePunctuation,
    initialPunctuation, finalPunctuation, otherPunctuation]

/-- The union Symbol. -/
def symbol : CharSet :=
  unionOf [mathSymbol, currencySymbol, modifierSymbol, otherSymbol]

/-- The union Separator. -/
def separator : CharSet :=
  unionOf [spaceSeparator, lineSeparator, paragraphSeparator]

/-- The union Other. -/
def other : CharSet :=
  unionOf [control, format, surrogate, privateUse, unassigned]

/-- The code points that have been given a meaning. -/
def assigned : CharSet :=
  unassigned.complement

/-- The general categories by name. Surrogates have none, as no text holds one. -/
def generalCategories : List NamedSet :=
  [⟨["any"], .all⟩,
   ⟨["assigned"], assigned⟩,
   ⟨["ascii"], ⟨[⟨0, 127⟩]⟩⟩,
   ⟨["casedletter", "lc"], casedLetter⟩,
   ⟨["l", "letter"], letter⟩,
   ⟨["combiningmark", "m", "mark"], mark⟩,
   ⟨["n", "number"], number⟩,
   ⟨["p", "punct", "punctuation"], punctuation⟩,
   ⟨["s", "symbol"], symbol⟩,
   ⟨["separator", "z"], separator⟩,
   ⟨["c", "other"], other⟩,
   ⟨["lu", "uppercaseletter"], uppercaseLetter⟩,
   ⟨["ll", "lowercaseletter"], lowercaseLetter⟩,
   ⟨["lt", "titlecaseletter"], titlecaseLetter⟩,
   ⟨["lm", "modifierletter"], modifierLetter⟩,
   ⟨["lo", "otherletter"], otherLetter⟩,
   ⟨["mn", "nonspacingmark"], nonspacingMark⟩,
   ⟨["mc", "spacingmark"], spacingMark⟩,
   ⟨["enclosingmark", "me"], enclosingMark⟩,
   ⟨["decimalnumber", "digit", "nd"], decimalNumber⟩,
   ⟨["letternumber", "nl"], letterNumber⟩,
   ⟨["no", "othernumber"], otherNumber⟩,
   ⟨["connectorpunctuation", "pc"], connectorPunctuation⟩,
   ⟨["dashpunctuation", "pd"], dashPunctuation⟩,
   ⟨["openpunctuation", "ps"], openPunctuation⟩,
   ⟨["closepunctuation", "pe"], closePunctuation⟩,
   ⟨["initialpunctuation", "pi"], initialPunctuation⟩,
   ⟨["finalpunctuation", "pf"], finalPunctuation⟩,
   ⟨["otherpunctuation", "po"], otherPunctuation⟩,
   ⟨["mathsymbol", "sm"], mathSymbol⟩,
   ⟨["currencysymbol", "sc"], currencySymbol⟩,
   ⟨["modifiersymbol", "sk"], modifierSymbol⟩,
   ⟨["othersymbol", "so"], otherSymbol⟩,
   ⟨["spaceseparator", "zs"], spaceSeparator⟩,
   ⟨["lineseparator", "zl"], lineSeparator⟩,
   ⟨["paragraphseparator", "zp"], paragraphSeparator⟩,
   ⟨["cc", "cntrl", "control"], control⟩,
   ⟨["cf", "format"], format⟩,
   ⟨["co", "privateuse"], privateUse⟩,
   ⟨["cn", "unassigned"], unassigned⟩]

end Peg.Unicode
