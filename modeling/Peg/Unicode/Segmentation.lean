import Peg.Unicode.Table

/-!
# Text segmentation

The classes by which the Unicode standard, version 16.0, divides text into user
perceived characters, words and sentences.

## Main definitions

* `graphemeClusterBreaks`, `wordBreaks`, `sentenceBreaks`: the classes under
  their short and long names.
-/

namespace Peg.Unicode

/-- The classes of grapheme cluster breaks. -/
def graphemeClusterBreaks : List NamedSet :=
  [⟨["cr"], .ofCode "d0"⟩,
   ⟨["cn", "control"],
    .ofCode "09111hCnwd0BMm0EXl0CEs021o6BdfCIWn0GobOH8fBLHs3FRz7BGUY5vCoDjGoDVz"⟩,
   ⟨["ex", "extend"],
    .ofCode "VcD3Hn6HbB810111110C0aBckg0Ct6252113z0uqCjaBm890o3181214B72Bn8B6n1vBj010474036a1t0Bm010238
      090a1q021Bl041412230u130b1Bl0441140k1m510Bm011138072a1u0Bn010c090B4030Bj012521371b1t0Bm021
      10321371b1s1Bl110238090a1t0C0040221080C9026c7Cq028b6C11r01010Bjd14115a1z90Cu3151121p142g3d
      02160f0Tj2BAa3s2t1u1Bs116802a90B9210D91y0Da2419062G3120Bm0161010276920BcuBd3Bc942B28c1w325
      Bk0113014Bk721E821c16406031FiBrOk0FfwDHa2Dx0CovPe5Cx1BGFw319w1C81Hk03040p150E71qhd0B27pa10
      B82Bc0232120B00Bv52121c080Bb0Bf012215110B6180Gm02040VR40UhfgfK61Qt0Ga0E54BUe21153B4240El1P
      x3Bt4It1C73ByaBd3Df0BieB5021a2Bd32170Bp2B0417Bq0c1Bg8108320Cn2236020Ed037l1Bl11010c090e634
      Bv0251020124210e1Cd72210n0C902510201111Gj0236111r1Cd72011Cy01027Ct0102314H7811Gt0a340E0321
      40w9B4523809522Bac11La61510Cal261111De530111610C013010Jn1b1Bg452n0FSl06eMGgb32CRc4Bn6BD40B
      r3C90b1UZ71FApB92mP24358726u3E42CCzBi4Bd80e0m41eBLs61g261114Cs0Eg6Kf0Bp3O43H21Ug6D16CY04BG
      LNkCnDkGn"⟩,
   ⟨["l"], .ofCode "EQwCnBPOws"⟩,
   ⟨["lf"], .ofCode "a0"⟩,
   ⟨["lv"],
    .ofCode "BVB40r0r0r0r0r0r0r0r0r0r0r0r0r0r0r0r0r0r0r0r0r0r0r0r0r0r0r0r0r0r0r0r0r0r0r0r0r0r0r0r0r0r0r
      0r0r0r0r0r0r0r0r0r0r0r0r0r0r0r0r0r0r0r0r0r0r0r0r0r0r0r0r0r0r0r0r0r0r0r0r0r0r0r0r0r0r0r0r0r
      0r0r0r0r0r0r0r0r0r0r0r0r0r0r0r0r0r0r0r0r0r0r0r0r0r0r0r0r0r0r0r0r0r0r0r0r0r0r0r0r0r0r0r0r0r
      0r0r0r0r0r0r0r0r0r0r0r0r0r0r0r0r0r0r0r0r0r0r0r0r0r0r0r0r0r0r0r0r0r0r0r0r0r0r0r0r0r0r0r0r0r
      0r0r0r0r0r0r0r0r0r0r0r0r0r0r0r0r0r0r0r0r0r0r0r0r0r0r0r0r0r0r0r0r0r0r0r0r0r0r0r0r0r0r0r0r0r
      0r0r0r0r0r0r0r0r0r0r0r0r0r0r0r0r0r0r0r0r0r0r0r0r0r0r0r0r0r0r0r0r0r0r0r0r0r0r0r0r0r0r0r0r0r
      0r0r0r0r0r0r0r0r0r0r0r0r0r0r0r0r0r0r0r0r0r0r0r0r0r0r0r0r0r0r0r0r0r0r0r0r0r0r0r0r0r0r0r0r0r
      0r0r0r0r0r0r0r0r0r0r0r0r0r0r0r0r0r0r0r0r0r0r0r0r0r0r0r0r0r0r0r0r0r0r0r0r0r0r0r0r0r0r0r0r0r
      0r0r0r0r0r0r0r0r0r0r0r0r0r0r0r0r0r0r0r0r0r0r0r0r0r0r0r0r0r0r0r0r0r0r0r0r0r0r0r0r0"⟩,
   ⟨["lvt"],
    .ofCode "BVB5q1q1q1q1q1q1q1q1q1q1q1q1q1q1q1q1q1q1q1q1q1q1q1q1q1q1q1q1q1q1q1q1q1q1q1q1q1q1q1q1q1q1q1
      q1q1q1q1q1q1q1q1q1q1q1q1q1q1q1q1q1q1q1q1q1q1q1q1q1q1q1q1q1q1q1q1q1q1q1q1q1q1q1q1q1q1q1q1q1
      q1q1q1q1q1q1q1q1q1q1q1q1q1q1q1q1q1q1q1q1q1q1q1q1q1q1q1q1q1q1q1q1q1q1q1q1q1q1q1q1q1q1q1q1q1
      q1q1q1q1q1q1q1q1q1q1q1q1q1q1q1q1q1q1q1q1q1q1q1q1q1q1q1q1q1q1q1q1q1q1q1q1q1q1q1q1q1q1q1q1q1
      q1q1q1q1q1q1q1q1q1q1q1q1q1q1q1q1q1q1q1q1q1q1q1q1q1q1q1q1q1q1q1q1q1q1q1q1q1q1q1q1q1q1q1q1q1
      q1q1q1q1q1q1q1q1q1q1q1q1q1q1q1q1q1q1q1q1q1q1q1q1q1q1q1q1q1q1q1q1q1q1q1q1q1q1q1q1q1q1q1q1q1
      q1q1q1q1q1q1q1q1q1q1q1q1q1q1q1q1q1q1q1q1q1q1q1q1q1q1q1q1q1q1q1q1q1q1q1q1q1q1q1q1q1q1q1q1q1
      q1q1q1q1q1q1q1q1q1q1q1q1q1q1q1q1q1q1q1q1q1q1q1q1q1q1q1q1q1q1q1q1q1q1q1q1q1q1q1q1q1q1q1q1q1
      q1q1q1q1q1q1q1q1q1q1q1q1q1q1q1q1q1q1q1q1q1q1q1q1q1q1q1q1q1q1q1q1q1q1q1q1q1q1q1q1q"⟩,
   ⟨["pp", "prepend"], .ofCode "BQo5Fz0Bd0Ko1C80BFf0CSYu0f0Gs1Ol0BMl010Gw0C15Tg0Mb0"⟩,
   ⟨["regionalindicator", "ri"], .ofCode "FGEmp"⟩,
   ⟨["sm", "spacingmark"],
    .ofCode "CM30Bj0228311Be1Bn16121Bi0Bm2Bu0Bm28011Bh1Bo06121D60113212Bg2Bp3Bp1Bm02011Ba0e1Bn15212Bh1C
      4166j1Br0Dj0Du1Br0Ex091p1B80BZ507711Jm3224115G81Bm010l5E10Bl3Bs0u041Br02210Bh781Er0l0BMBn1
      20Cg1BefDy0Bc0Bc14121D3121o0Ed02150Gl1111110BBJn010Dj0B9241D70o1Bn0Bc290e0Cl231Es2v1Bn0132
      121l1Cd1f011Cv28130Cz160111020Gm16320D528110D1011D2070H9290Gw4117010Dy28340Cc0t1Bq0Lb0e0Cy
      07020Fx44110Jq1c0Bc181SAq2DWkBi"⟩,
   ⟨["t"], .ofCode "EVkCfCCCjBc"⟩,
   ⟨["v"], .ofCode "ETkBzCCE8mBOXw033"⟩,
   ⟨["zwj"], .ofCode "ITx0"⟩]

/-- The classes of word breaks. -/
def wordBreaks : List NamedSet :=
  [⟨["aletter", "le"],
    .ofCode "Btp6pBb0a0405m1u1Nb6xD441123106012101j1Ca1Du8El1B123101B410Cw0B8B6z11Cq10f171a220f11ttCgb0
      ow91405l409030no7a5n15hB5BmBh30i079ff47212l16103330g0d112e1a085412l16111111v310j2g8121l161
      11430i0f1n0b7212l16111430u112f0h015321331101131323bm0Bg7121m1f30q22021u047121m191430v111f1
      h8121B420g05282o55h3n181026Ip0Br71zr4HnB110502B61J8132610132B4132w132610132e1Bk132BuB1fgCd
      253R72g1p5C23a7hdiehec12EvCg742x105BxauG9mGmBah7Bitd1aB7qzB52az2a5B622B531511305FbBsHp252B
      125271010101u2Bg1610321633254c5216D80d0gcCt040291034601010131a235440hB4WlBfBYeGc6331cB1105
      02Bj70gm9616161616161616C80N10Bh1FkB61ClhvBEE0BGcBvB92Hg3fa1kBagu2C7oFh211017lf12131mtBfeB
      dBq53011bramps7Bas0BcB4n217E4a72c5252596161Bl6D6tLYbcm4BcJP06c4BkCpxK2iBr2BhB4bD841DqB0p6p
      Bxu35252522zb1p1i111e2dyDeBxBgHfs3BcBbvdt5B1at2z4714B6Ediz4z4B38Bfca1e16111a1e16113BfcIm9l
      a7o51B518Bx5201B711302mam9uBti11alapByBj61Bs0f3121sB6s3sz71rrBhalaidhD2C0BjBedBedzB2r9mGyB
      561g2Bnsa08lB6hBakrmcBgBl120dB8woqzt0208y30cBbe3l010zh1oj1Br610131e197BaB27212l16111430i0c
      4u910201B110p010B8Bgi3k2uBbk110F4BaB53B0Bbk0BnB6d0J3B7D8Brv72027111nf010Cm72B2g010s0aB370l
      0bB9j0iC0Fjwv81B0h0BdtD46111B1l0p5111ve0J3if01c1xDg0C7ZlCuD2hFfCV8CofBDrh5pEGy5Q6HI1tBWyPs
      7uhC6htiBbg3vk5iM0B8FvBrDkC250BucBs110UV8Cy5c3879GKeCc1By112021231b10161Bs1327161r13141036
      1Jf2o1o1u1o1u1o1u1o1u1o17BZ8u65H9BpE2B8a6g0IxtiB7NgrGct20Nr613111e1FgBnBv70BHg31q111020191
      3101060401010121110201010101011102316131310191g52141gRgp6p6p"⟩,
   ⟨["cr"], .ofCode "d0"⟩,
   ⟨["doublequote", "dq"], .ofCode "y0"⟩,
   ⟨["extend"],
    .ofCode "VcD3Hn6HbB810111110C0aBckg0Ct6252113z0uqCjaBm890o3181214B72Bn8B6n1wBi21h16a1t2Bk016212290a
      1q022Bk014412230u130b2Bk0171212k1m512Bk016212272a1u0Bn4321390B44Bj016121371b1t2Bk016121371
      b1f0c3Bj116121390a1t2By0451017i1Bp026c7Cq028b6C11r0101041Bdj115a1z90Csjn342122633db10a3Tj2
      BAa3s2t1u1Bsv90B9210D91y0Dab4bG34Bl91s20BcuBd4BbgB28c2ucBkdBcjE821k406022FiBrOk0FfwDHa2Dx0
      CovPe5Cx1BGFw319w1C81Hk03040n440Cb1Behqhd0B27pcB83BbdB00Bvdc081B92Be012215110B5451Gk711VR4
      0UhfgfK61Qt0Ga0E54BUe21153B4240El1Px3Bt4It1C73ByaBd3De2BheB5021a3B9a70Bp2B0dg1B80c2Bcd8311
      Ckb6020Edbl3Bj116212290a12634Bv81020131410e1Cahn0C9jGj628r1CagCycCteH4eGt511231011Dx62630s
      9B4613809aBafL9717Cal1dDe530111610Bu41114Jn39110Bc634n0FSl06eMGghCRc4Bn6BD401Bi73C90b1UZ71
      FApB92mP24358726u3E42CCzBi4Bd80e0m41eBLs61g261114Cs0Eg6Kf0Bp3O43H21Ug6D16CY04BGLNkCnDkGn"⟩,
   ⟨["ex", "extendnumlet"], .ofCode "Cn0IS70f1j0CIRq1o2Gn0"⟩,
   ⟨["fo", "format"], .ofCode "Et0BMm0EXl0CEv1q4Bd419CIWn0Gx2OH8fBLHs3FRz7BGUY60"⟩,
   ⟨["hebrewletter", "hl"], .ofCode "BPcq43CPBe0191c1410111119"⟩,
   ⟨["ka", "katakana"], .ofCode "NEp4Ct13Ci13GofFsBa1CfCDV2BjBWFu3161110Hz2Be0e3"⟩,
   ⟨["lf"], .ofCode "a0"⟩,
   ⟨["midletter", "ml"], .ofCode "Bm0Dg0Tz0N30E40HEa0CIS30Bt0Fg0"⟩,
   ⟨["midnum", "mn"], .ofCode "B80e0X60Oi0Dm1Cm0Kz0GQr0CISz030F30e0"⟩,
   ⟨["mb", "midnumlet"], .ofCode "Ba0ISx1a0CITx0F0060"⟩,
   ⟨["newline", "nl"], .ofCode "b1Dc0IQy1"⟩,
   ⟨["nu", "numeric"],
    .ofCode "Bc9BP25Ci910D50i9Fi9Fi1C80Dn9Da9Da9Da9Da9Da9Da9Da9Da9Da9Co9Da9By9Hq9By9BZq9B29Ic9DkaEl969F
      29Ce9Dq969BLRq9Su9B29Fi9m9Ce9La9WSu9BNa9CIm969W49C50f0y9Bo9E09Hq9Ji9Da9Ke9Cu96jC49Lq9Cu9Se
      9Ce9Gu9By9Lq9SA69CN29Ce9Dq9Ou9BACu9CZ0BdCNs9Lq9Ny9Gv9Xp9FC69"⟩,
   ⟨["regionalindicator", "ri"], .ofCode "FGEmp"⟩,
   ⟨["singlequote", "sq"], .ofCode "B30"⟩,
   ⟨["wsegspace"], .ofCode "w0GD30CPj612Cc0EH40"⟩,
   ⟨["zwj"], .ofCode "ITx0"⟩]

/-- The classes of sentence breaks. -/
def sentenceBreaks : List NamedSet :=
  [⟨["at", "aterm"], .ofCode "Ba0IT90CITx0F70"⟩,
   ⟨["cr"], .ofCode "d0"⟩,
   ⟨["cl", "close"],
    .ofCode "y042Bd010t010B90f0DZ23CAd1CPf7p1a1Bi1e1Rl3t1BDs57dC71v9L7lBr3w1BCide129o0i7Lv92712CECm1Fz1
      sf21g5Ep1Bd010t0101111CPOy2"⟩,
   ⟨["ex", "extend"],
    .ofCode "VcD3Hn6HbB810111110C0aBckg0Ct6252113z0uqCjaBm890o3181214B72Bn8B6n1wBi21h16a1t2Bk016212290a
      1q022Bk014412230u130b2Bk0171212k1m512Bk016212272a1u0Bn4321390B44Bj016121371b1t2Bk016121371
      b1f0c3Bj116121390a1t2By0451017i1Bp026c7Cq028b6C11r0101041Bdj115a1z90Csjn342122633db10a3Tj2
      BAa3s2t1u1Bsv90B9210D91y0Dab4bG34Bl91s20BcuBd4BbgB28c2ucBkdBcjE821k406022FiBrOk1FewDHa2Dx0
      CovPe5Cx1BGFw319w1C81Hk03040n440Cb1Behqhd0B27pcB83BbdB00Bvdc081B92Be012215110B5451Gk711VR4
      0UhfgfK61Qt0Ga0E54BUe21153B4240El1Px3Bt4It1C73ByaBd3De2BheB5021a3B9a70Bp2B0dg1B80c2Bcd8311
      Ckb6020Edbl3Bj116212290a12634Bv81020131410e1Cahn0C9jGj628r1CagCycCteH4eGt511231011Dx62630s
      9B4613809aBafL9717Cal1dDe530111610Bu41114Jn39110Bc634n0FSl06eMGghCRc4Bn6BD401Bi73C90b1UZ71
      FApB92mP24358726u3E42CCzBi4Bd80e0m41eBLs61g261114Cs0Eg6Kf0Bp3O43H21Ug6D16BGOLpCnDkGn"⟩,
   ⟨["fo", "format"], .ofCode "Et0BMm0Gq0EQu0CEs021q4Bd419CIWn0Gx2OH8fBLHs3FRz7BGUY60"⟩,
   ⟨["lf"], .ofCode "a0"⟩,
   ⟨["lo", "lower"],
    .ofCode "CppBb0a040B0n17101010101010101010101010101010101010101010101010101010111010101010101011101
      010101010101010101010101010101010101010101020101220102031402032202010102011102030102122602
      020101010101010101110101010101010101120103010101010101010101010101010101010101010101010101
      01010101016202110401010101Bw1z71u4Dw0103023i0ry1132101010101010101010101014102021BfBb10101
      010101010101010101010101010109010101010101010101010101010101010101010101010101010102010101
      010101110101010101010101010101010101010101010101010101010101010101010101010101010101010101
      0101010101010BcB4DDf0V75CIi810D9FbBt010101010101010101010101010101010101010101010101010101
      010101010101010101010101010101010101010101010101010101010101010101010101010101010101010101
      010181010101010101010101010101010101010101010101010101010101010101010101010101010101010101
      010101010101885a78785a7878d2787878411603211832187a211Dd0d0gcD103130r04040218340xf40XfpBZqB
      b10311010104011173010101010101010101010101010101010101010101010101010101010101010101010101
      010101010101010101010101011701040cB11050BHCz010101010101010101010101010101010101010101010j
      010101010101010101010101012Dp0101010101012101010101010101010101010101010101010101010101010
      101010101010191010201010101040102012101010101010101010105050101010101010104010203010101010
      10m21012WtB61d6C7VRk6c4BDlpBI5B3DszEba1e1611Mj0221B518BJpBeDhlDBuvXK0vBBUipq61hqpq310161aq
      pqpqpqpqpqpqpqpqrso15qo15qo15qo15qo1510BZ891j65H9BpCJwx"⟩,
   ⟨["nu", "numeric"],
    .ofCode "Bc9BP25Ci911D40i9Fi9Fi1C80Dn9Da9Da9Da9Da9Da9Da9Da9Da9Da9Co9Da9By9Hq9By9BZq9B29Ic9DkaEl969F
      29Ce9Dq969BLRq9Su9B29Fi9m9Ce9La9WSu9BNa9CIm969W49C50f0y9Bo9E09Hq9Ji9Da9Ke9Cu96jC49Lq9Cu9Se
      9Ce9Gu9By9Lq9SA69CN29Ce9Dq9Ou9BACu9CZ0BdCNs9Lq9Ny9Gv9Xp9FC69"⟩,
   ⟨["le", "oletter"],
    .ofCode "Mb043Fs0B066bq010Dp0Ng0Daq44B8B6z11Cq10f171a220g01ttCgb0ow91405l409030no7a5n15hB5BmBh30i07
      9ff47212l16103330g0d112e1a085412l16111111v310j2g8121l16111430i0f1n0b7212l16111430u112f0h01
      5321331101131323bm0Bg7121m1f30q22021u047121m191430v111f1h8121B420g05282o55h3n181026BmBb11c
      6Bm110141n101911902410l3w0Br71zr4D7B6k0g5433031724cc0BtB62J7132610132B4132w132610132e1Bk13
      2BuB1fD5R72g1p5C23a7hdiehec12fBfz040BvCg742x105BxauBdt24bB74pBim9BgCa0ClBah7Bitd1aB7qzB52a
      ziB622B53151130BE23Bz223DEvBj70gm9616161616161616C80N12p874244Cd621Ch135B61ClhvBcfO8HB3BsX
      RgBvB92Hg3fa1Bu0g0wC7B38Cw060Cv03612131mtBfeBdBq53011bramps7Bas0g419a41B4n217km303Bd103124
      2010o22a72c525259616E1ytLYbcm4BcJAsK52CxBv0191c141011111CzxK2iBr2BhB4bD841DqCxBj2u35252522
      zb1p1i111e2dyDeBxBgHfs3BcBbvdt5B1at2z4714DeC5CqB38BfCkBfcIm9la7p1Dh5201B711302mam9uBti11al
      apByBj61Bs0f3121sB6s3sz71rrBhalaidhD2C0F3zB25v0HkB561g2Bnsa08lB6hBakrmcBgBl120dB8woqzt0208
      y30cBbe3l010zh1oj1Br610131e197BaB27212l16111430i0c4u910201B110p010B8Bgi3k2uBbk110F4BaB53B0
      Bbk0BnB6d0BzqB16F5B7Fv72027111nf010Cm72B2g010s0aB370l0bB9j0iC0Fjwv81B0h0BdtD46111B1l0p5111
      ve0J3if01c1xDg0C7ZlCuD2hFfCV8CofBDrh5pEGy5Q6HI1tBWyPs7uhC6htiBbg3vk5iM0B8L7C250BucBs110sGO
      f8BIdB59JO7316111I2f0t220e38KzCM4Cy5c3879JKw0NxB8a6g0IxtiB7NgrGct20Nr613111e1FgDq0BHg31q11
      10201913101060401010121110201010101011102316131310191g52141gESsBTQnwELd6G52GE1eHZkfR9CQiP1
      BPuFH65EMf"⟩,
   ⟨["sc", "scontinue"], .ofCode "B81c1X60Na0Eu1Nm0EK1050CF61EJ80CEJa111s1t12120a0Eo1c1C00"⟩,
   ⟨["st", "sterm"],
    .ofCode "x0t0BLl0E32F00B72Gu0Bp01031I51BX01Vy041Vh0Fi1Ed1B9050Iq1Ju3Ei1a121t2F71Bt1BAk192DM72Ii0d0m
      1Lx0BFZw0Hi1Gb030Km1Ce1Cn0E81E32E01Gx0WM6021Br1Ep0t0Bt0CZw1BJh4B83F91D93Dj2Dl160g1Cg111D00
      Ia1D91Kd15eCx1Gx2Od010Gz1Cf1Lo1T81C21UOh1Dp0Bt1b0Pd1I80VIu0IEo0"⟩,
   ⟨["se", "sep"], .ofCode "Dp0IQy1"⟩,
   ⟨["sp"], .ofCode "9011j0Dj0FZj0CPjaB00Bb0EH40"⟩,
   ⟨["up", "upper"],
    .ofCode "BtpCtm16x010101010101010101010101010101010101010101010101010101020101010101010102010101010
      101010101010101010101010101010101010111010311011122311123111101011102011121011307111111010
      101010101010201010101010101010211012101010101010101010101010101010101010101010101010101010
      10107111201310101010I10103080601210111g18z0223010101010101010101010105020112BeBc0101010101
      010101010101010101010109010101010101010101010101010101010101010101010101010101110101010101
      020101010101010101010101010101010101010101010101010101010101010101010101010101010101010101
      01010102B1DC9B11050U2CdCIz0Ke0101010101010101010101010101010101010101010101010101010101010
      101010101010101010101010101010101010101010101010101010101010101010101010101010101010101090
      101010101010101010101010101010101010101010101010101010101010101010101010101010101010101010
      1010109785a78785b010101087o7878784b4b3c4b4H9040322220346010101323a150qfj0WqpBZ4BbBc0122010
      101310208210101010101010101010101010101010101010101010101010101010101010101010101010101010
      101010101010101010801040BHEl010101010101010101010101010101010101010101010j0101010101010101
      01010101010Dr010101010101030101010101010101010101010101010101010101010101010101010101010a0
      10111010101040102010301010101010101010101414101010101010101310113050101010o0XVvpBHxB3DszEc
      a1e1611BX6BeEdlDBuvXK0vBBUopqpqpq01120212317qpq1132716r113141036rpqpqpqpqpqpuoxoxoxoxox0ES
      dxCFap6p6p"⟩]

end Peg.Unicode
