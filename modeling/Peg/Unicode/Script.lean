import Peg.Unicode.Table

/-!
# Scripts

The scripts of the Unicode standard, version 16.0. A character has one script;
its script extensions are all scripts in which it is used.

## Main definitions

* `scripts`, `scriptExtensions`: the sets under their short and long names.
-/

namespace Peg.Unicode

/-- The characters whose script is the named one. -/
def scripts : List NamedSet :=
  [⟨["adlam", "adlm"], .ofCode "FDTcC34941"⟩,
   ⟨["ahom"], .ofCode "CYI0q2e4m"⟩,
   ⟨["anatolianhieroglyphs", "hluw"], .ofCode "DKQ0Q6"⟩,
   ⟨["arab", "arabic"],
    .ofCode "BQo4151d121v19bp1Cz1xC8BbGou115C21sCOH4D6gK22C72Bh70wfD441DqEFfuBv2Bj3CIZs31q1110201913101
      060401010121110201010101011102316131310191g52141gBg1"⟩,
   ⟨["armenian", "armn"], .ofCode "BKxB12Bd22CPDv4"⟩,
   ⟨["avestan", "avst"], .ofCode "CVAoBh36"⟩,
   ⟨["bali", "balinese"], .ofCode "HK0C41Bd"⟩,
   ⟨["bamu", "bamum"], .ofCode "BTOwCfCAUoPs"⟩,
   ⟨["bass", "bassavah"], .ofCode "DVG0t25"⟩,
   ⟨["batak", "batk"], .ofCode "HPcBf83"⟩,
   ⟨["beng", "bengali"], .ofCode "CPk317212l1610332821238041142o"⟩,
   ⟨["bhaiksuki", "bhks"], .ofCode "CZRk81B81das"⟩,
   ⟨["bopo", "bopomofo"], .ofCode "Uq1MPtB6D4v"⟩,
   ⟨["brah", "brahmi"], .ofCode "CWK8C54z90"⟩,
   ⟨["brai", "braille"], .ofCode "KYgH3"⟩,
   ⟨["bugi", "buginese"], .ofCode "HCwr21"⟩,
   ⟨["buhd", "buhid"], .ofCode "GJcj"⟩,
   ⟨["canadianaboriginal", "cans"], .ofCode "FM8RrPkBxCSMqf"⟩,
   ⟨["cari", "carian"], .ofCode "CST4Bc"⟩,
   ⟨["aghb", "caucasianalbanian"], .ofCode "CTLcBfb0"⟩,
   ⟨["cakm", "chakma"], .ofCode "CWRcBg1h"⟩,
   ⟨["cham"], .ofCode "BUMwBi9d2923"⟩,
   ⟨["cher", "cherokee"], .ofCode "FJkCd25BPKyC7"⟩,
   ⟨["chorasmian", "chrs"], .ofCode "CWI0r"⟩,
   ⟨["common", "zyyy"],
    .ofCode "0Bsq5qBa1e14n0v0MhB2542jD80906010Rp060e030w0Ec0Oc0Dl1BIh0L93I20BQ72Bz1Fn110BI50d073151220V
      hb2Ce1a3a1ehwBrB112251q1gB524ShmalZrH4Rf2v1CwO8ClL6k101of743Cj130Ci1E3fwB190BcBrvC8Bb0CgEn
      HB4BrYIwxCu2El9Gs0Eg0Kz0e1WJu1Fs9my1i13E301vq5qaa0B91Bs616a4H624B838C8cBfB8GcqBYU43EF8Gx6M
      3EcD7BoGtaB22Bp3g817t4BoFxjcjcCe9oDrCc1By112021231b10161Bs1327161r131410361Jf2I32BdFPdBvC4
      BoTmB74Crce2e1e1B0aEtBkp11dB74871e5EaBBb4g3c3Da4Cm6b40fb4Bj896B38t2b41BqJfcd2c395Bj7e2a687
      E21CtBGJHz0uCn"⟩,
   ⟨["copt", "coptic", "qaac"], .ofCode "BBmdLCgD756"⟩,
   ⟨["cuneiform", "xsux"], .ofCode "DAU0ZlCuD214bFf"⟩,
   ⟨["cprt", "cypriot"], .ofCode "CUFc5201B7113020"⟩,
   ⟨["cpmn", "cyprominoan"], .ofCode "DFAoCq"⟩,
   ⟨["cyrillic", "cyrl"], .ofCode "BCgDo2EoGJsaEg0C40EMnvBGX4CnXYm1CJV4Bpx0"⟩,
   ⟨["deseret", "dsrt"], .ofCode "CTCwC7"⟩,
   ⟨["deva", "devanagari"], .ofCode "CM0C84e2pBRPcvBFEo9"⟩,
   ⟨["diak", "divesakuru"], .ofCode "CYW862027111t112b99"⟩,
   ⟨["dogr", "dogra"], .ofCode "CYP4Bn"⟩,
   ⟨["dupl", "duployan"], .ofCode "ERLcCy5c387923"⟩,
   ⟨["egyp", "egyptianhieroglyphs"], .ofCode "DFDsBEtaEGy"⟩,
   ⟨["elba", "elbasan"], .ofCode "CTK0B3"⟩,
   ⟨["elym", "elymaic"], .ofCode "CWJcm"⟩,
   ⟨["ethi", "ethiopic"],
    .ofCode "EY0C0132610132B4132w132610132e1Bk132Bu2v3pHC6m9616161616161616BIFu525259616DIQ1613111e"⟩,
   ⟨["gara", "garay"], .ofCode "CVQoB13s81"⟩,
   ⟨["geor", "georgian"], .ofCode "EO8B110502B613DE8B622ELkB11050"⟩,
   ⟨["glag", "glagolitic"], .ofCode "MAwCnEPDs61g261114"⟩,
   ⟨["goth", "gothic"], .ofCode "CSX4q"⟩,
   ⟨["gran", "grantha"], .ofCode "CXFk317212l1611142821222060562634"⟩,
   ⟨["greek", "grek"],
    .ofCode "Yg3122310401012101j1BqefGWu4Be444Cc0Iwl252B125271010101u2Bg1e1d251i2218I70BLV20XMiC6h0CEZr
      Bx"⟩,
   ⟨["gujarati", "gujr"], .ofCode "CWp218121l16111429121220f32b76"⟩,
   ⟨["gong", "gunjalagondi"], .ofCode "DABc5111B0111579"⟩,
   ⟨["gurmukhi", "guru"], .ofCode "CT5215412l16111111201441223073107g"⟩,
   ⟨["gukh", "gurungkhema"], .ofCode "DSO8Bl"⟩,
   ⟨["han", "hani"],
    .ofCode "MSop1CgcFxBb010p8e3BAsHB3BsWL3YIwK52CxBGA81c1BNKeBTQnwELd6G52GE1eHZkfR9CQiP1BPuFH65EMf"⟩,
   ⟨["hang", "hangul"], .ofCode "EQwH3IGm1H5ClD5uBtuBGNdsRvLYbcm4BcKVwu35252522"⟩,
   ⟨["hanifirohingya", "rohg"], .ofCode "CVOwB389"⟩,
   ⟨["hano", "hanunoo"], .ofCode "GIgk"⟩,
   ⟨["hatr", "hatran"], .ofCode "CULki1154"⟩,
   ⟨["hebr", "hebrew"], .ofCode "BNlBi8q45CPBcp1410111119"⟩,
   ⟨["hira", "hiragana"], .ofCode "NF5Cd62EAW9Hyi0t2RRx0"⟩,
   ⟨["armi", "imperialaramaic"], .ofCode "CUH4l18"⟩,
   ⟨["inherited", "qaai", "zinh"],
    .ofCode "VcD3Hp1Mkaq0Ug3ETfuO921c16406031FiBrOk1FewEE93Cz1CEElfgdBB30Ga0EMa0BZJ8B92mP42h726u3BGVDuG
      n"⟩,
   ⟨["inscriptionalpahlavi", "phli"], .ofCode "CVDci57"⟩,
   ⟨["inscriptionalparthian", "prti"], .ofCode "CVCgl27"⟩,
   ⟨["java", "javanese"], .ofCode "BUJcC52941"⟩,
   ⟨["kaithi", "kthi"], .ofCode "CWNsBua0"⟩,
   ⟨["kannada", "knda"], .ofCode "DKwc121m19142812137161132912"⟩,
   ⟨["kana", "katakana"], .ofCode "NHtCh22GofFsBa1CfCDV291B8BWFu3161110Hz2Be0e3"⟩,
   ⟨["kawi"], .ofCode "DAMwg1B43s"⟩,
   ⟨["kali", "kayahli"], .ofCode "BUFsB910"⟩,
   ⟨["khar", "kharoshthi"], .ofCode "CUTk31157121s224978"⟩,
   ⟨["khitansmallscript", "kits"], .ofCode "DWQ40HKrN1B50"⟩,
   ⟨["khmer", "khmr"], .ofCode "GL4Cl2969Niv"⟩,
   ⟨["khoj", "khojki"], .ofCode "CWYgh1Ba"⟩,
   ⟨["khudawadi", "sind"], .ofCode "CXDcBm59"⟩,
   ⟨["kiratrai", "krai"], .ofCode "DVXcBl"⟩,
   ⟨["lao", "laoo"], .ofCode "DZ5110141n101m2410161923"⟩,
   ⟨["latin", "latn"],
    .ofCode "Btp6pBb0f05m1u1MgB34HDnB16Bc535c1BxBtH3K90d0gcDx160r0hB4CZ3vBHO2Ct3Bu211017ldWoB61813VTy6B
      D6p6pCFx51B518CGWtu65"⟩,
   ⟨["lepc", "lepcha"], .ofCode "HR4Bj3e32"⟩,
   ⟨["limb", "limbu"], .ofCode "GVsu1b4b403b"⟩,
   ⟨["lina", "lineara"], .ofCode "CTR4Im9la7"⟩,
   ⟨["linb", "linearb"], .ofCode "CSAgb1p1i111e2dyDe"⟩,
   ⟨["lisu"], .ofCode "BTC0BbBHOg0"⟩,
   ⟨["lyci", "lycian"], .ofCode "CSS8s"⟩,
   ⟨["lydi", "lydian"], .ofCode "CUNcp50"⟩,
   ⟨["mahajani", "mahj"], .ofCode "CWTkB2"⟩,
   ⟨["maka", "makasar"], .ofCode "DAM0o"⟩,
   ⟨["malayalam", "mlym"], .ofCode "DOgc121Be12154f2p"⟩,
   ⟨["mand", "mandaic"], .ofCode "CGor20"⟩,
   ⟨["mani", "manichaean"], .ofCode "CUYwB24b"⟩,
   ⟨["marc", "marchen"], .ofCode "CZUov2l1d"⟩,
   ⟨["gonm", "masaramgondi"], .ofCode "CZYo6111B730111889"⟩,
   ⟨["medefaidrin", "medf"], .ofCode "DWEgCi"⟩,
   ⟨["meeteimayek", "mtei"], .ofCode "BUT4mFlB929"⟩,
   ⟨["mend", "mendekikakui"], .ofCode "FDM8Fg2f"⟩,
   ⟨["merc", "meroiticcursive"], .ofCode "CUQwn4j2B9"⟩,
   ⟨["mero", "meroitichieroglyphs"], .ofCode "CUQ0v"⟩,
   ⟨["miao", "plrd"], .ofCode "DWJsC24Bk7g"⟩,
   ⟨["modi"], .ofCode "CYAwBwb9"⟩,
   ⟨["mong", "mongolian"], .ofCode "GOo1201j6Cg7B6CRK5c"⟩,
   ⟨["mro", "mroo"], .ofCode "DVC0u1941"⟩,
   ⟨["mult", "multani"], .ofCode "CXC0610131e1a"⟩,
   ⟨["myanmar", "mymr"], .ofCode "EJsEfBPXsuCpvBDQ8j"⟩,
   ⟨["nabataean", "nbat"], .ofCode "CUIwu88"⟩,
   ⟨["nagm", "nagmundari"], .ofCode "FCPkB5"⟩,
   ⟨["nand", "nandinagari"], .ofCode "CZAo72B92a"⟩,
   ⟨["newtailue", "talu"], .ofCode "GZcB74p6a31"⟩,
   ⟨["newa"], .ofCode "CXMoCj14"⟩,
   ⟨["nko", "nkoo"], .ofCode "CD4Bm22"⟩,
   ⟨["nshu", "nushu"], .ofCode "DWQ10RY6Kz"⟩,
   ⟨["hmnp", "nyiakengpuachuehmong"], .ofCode "FBOgB83d2941"⟩,
   ⟨["ogam", "ogham"], .ofCode "GE0s"⟩,
   ⟨["olchiki", "olck"], .ofCode "HTcBb"⟩,
   ⟨["olonal", "onao"], .ofCode "FCWoB640"⟩,
   ⟨["hung", "oldhungarian"], .ofCode "CVLcBedBe75"⟩,
   ⟨["ital", "olditalic"], .ofCode "CSVsz92"⟩,
   ⟨["narb", "oldnortharabian"], .ofCode "CUX4v"⟩,
   ⟨["oldpermic", "perm"], .ofCode "CSY0B6"⟩,
   ⟨["oldpersian", "xpeo"], .ofCode "CTA8z4d"⟩,
   ⟨["oldsogdian", "sogo"], .ofCode "CWD4B3"⟩,
   ⟨["oldsoutharabian", "sarb"], .ofCode "CUW8v"⟩,
   ⟨["oldturkic", "orkh"], .ofCode "CVHsC0"⟩,
   ⟨["olduyghur", "ougr"], .ofCode "CWG8p"⟩,
   ⟨["oriya", "orya"], .ofCode "DA9217212l1611142821227241142h"⟩,
   ⟨["osage", "osge"], .ofCode "CTHsz4z"⟩,
   ⟨["osma", "osmanya"], .ofCode "CTGgt29"⟩,
   ⟨["hmng", "pahawhhmong"], .ofCode "DVHcBxa9161k5i"⟩,
   ⟨["palm", "palmyrene"], .ofCode "CUI0v"⟩,
   ⟨["pauc", "paucinhau"], .ofCode "CZIoBk"⟩,
   ⟨["phag", "phagspa"], .ofCode "BUAgBj"⟩,
   ⟨["phnx", "phoenician"], .ofCode "CUMgr30"⟩,
   ⟨["phlp", "psalterpahlavi"], .ofCode "CVE8h73c6"⟩,
   ⟨["rejang", "rjng"], .ofCode "BUH4zb0"⟩,
   ⟨["runic", "runr"], .ofCode "GEwC23a"⟩,
   ⟨["samaritan", "samr"], .ofCode "CEwB92e"⟩,
   ⟨["saur", "saurashtra"], .ofCode "BUC8Bx8b"⟩,
   ⟨["sharada", "shrd"], .ofCode "CWUwCn"⟩,
   ⟨["shavian", "shaw"], .ofCode "CTF4Bb"⟩,
   ⟨["sidd", "siddham"], .ofCode "CXXcBh2B1"⟩,
   ⟨["sgnw", "signwriting"], .ofCode "EZCgS3f41e"⟩,
   ⟨["sinh", "sinhala"], .ofCode "DS121h3n181026304510176922CTCcj"⟩,
   ⟨["sogd", "sogdian"], .ofCode "CWEgB5"⟩,
   ⟨["sora", "sorasompeng"], .ofCode "CWQ0o79"⟩,
   ⟨["soyo", "soyombo"], .ofCode "CZFkCa"⟩,
   ⟨["sund", "sundanese"], .ofCode "HNkBrH47"⟩,
   ⟨["sunu", "sunuwar"], .ofCode "CZPsxe9"⟩,
   ⟨["sylo", "sylotinagri"], .ofCode "BTYoB8"⟩,
   ⟨["syrc", "syriac"], .ofCode "BXsd1Bn22Hka"⟩,
   ⟨["tagalog", "tglg"], .ofCode "GHkl90"⟩,
   ⟨["tagb", "tagbanwa"], .ofCode "GK8c1211"⟩,
   ⟨["taile", "tale"], .ofCode "GY0t24"⟩,
   ⟨["lana", "taitham"], .ofCode "HDsBq1s2a696d"⟩,
   ⟨["taiviet", "tavt"], .ofCode "BUQgBuo4"⟩,
   ⟨["takr", "takri"], .ofCode "CYEgBl69"⟩,
   ⟨["tamil", "taml"], .ofCode "DDu115321331101131323b4432132060ekCXL1Bdd0"⟩,
   ⟨["tangsa", "tnsa"], .ofCode "DVDcC619"⟩,
   ⟨["tang", "tangut"], .ofCode "DWQ00vGOf8VbO88"⟩,
   ⟨["telu", "telugu"], .ofCode "DHcc121m1f281213711220232978"⟩,
   ⟨["thaa", "thaana"], .ofCode "CBcBd"⟩,
   ⟨["thai"], .ofCode "DVlBl5r"⟩,
   ⟨["tibetan", "tibt"], .ofCode "ECoBz1z4B21z1e1641"⟩,
   ⟨["tfng", "tifinagh"], .ofCode "MJcBj71e0"⟩,
   ⟨["tirh", "tirhuta"], .ofCode "CXQ8Bz89"⟩,
   ⟨["todhri", "todr"], .ofCode "CTPcBf"⟩,
   ⟨["toto"], .ofCode "FBZku"⟩,
   ⟨["tulutigalari", "tutg"], .ofCode "CXJ4910201B119102013191181"⟩,
   ⟨["ugar", "ugaritic"], .ofCode "CSZct10"⟩,
   ⟨["vai", "vaii"], .ofCode "BTDcIb"⟩,
   ⟨["vith", "vithkuqi"], .ofCode "CTN4a1e16111a1e1611"⟩,
   ⟨["wancho", "wcho"], .ofCode "FCAwBl50"⟩,
   ⟨["wara", "warangciti"], .ofCode "CYTkCac0"⟩,
   ⟨["yezi", "yezidi"], .ofCode "CVZkB51221"⟩,
   ⟨["yi", "yiii"], .ofCode "BRTsBGc3Bi"⟩,
   ⟨["zanabazarsquare", "zanb"], .ofCode "CZDcBz"⟩]

/-- The characters whose script extensions hold the named script. -/
def scriptExtensions : List NamedSet :=
  [⟨["adlam", "adlm"], .ofCode "BRj0w0HDa0DV50ERCeC34941"⟩,
   ⟨["ahom"], .ofCode "CYI0q2e4m"⟩,
   ⟨["anatolianhieroglyphs", "hluw"], .ofCode "DKQ0Q6"⟩,
   ⟨["arab", "arabic"],
    .ofCode "BQo41Fy1xC8BbGou115C21sGJr0DV50CEC6D6gMc2Bh70wfD441DqBBnrDD0uBv2Bj3CIZs31q1110201913101060
      401010121110201010101011102316131310191g52141gBg1"⟩,
   ⟨["armenian", "armn"], .ofCode "Vk0PcB12Bd22CPDv4"⟩,
   ⟨["avestan", "avst"], .ofCode "F30MLc1CIK6Bh36"⟩,
   ⟨["bali", "balinese"], .ofCode "HK0C41Bd"⟩,
   ⟨["bamu", "bamum"], .ofCode "BTOwCfCAUoPs"⟩,
   ⟨["bass", "bassavah"], .ofCode "DVG0t25"⟩,
   ⟨["batak", "batk"], .ofCode "HPcBf83"⟩,
   ⟨["beng", "bengali"],
    .ofCode "Tg0BUs1h1q317212l1610332821238041142oFDt01021108080204022BMHd0"⟩,
   ⟨["bhaiksuki", "bhks"], .ofCode "CZRk81B81das"⟩,
   ⟨["bopo", "bopomofo"], .ofCode "Tr012d0g1MIl2491ca32060Ff09B6D4vCDYd1Hu4"⟩,
   ⟨["brah", "brahmi"], .ofCode "CWK8C54z90"⟩,
   ⟨["brai", "braille"], .ofCode "KYgH3"⟩,
   ⟨["bugi", "buginese"], .ofCode "HCwr21BNHr0"⟩,
   ⟨["buhd", "buhid"], .ofCode "GJ119j"⟩,
   ⟨["canadianaboriginal", "cans"], .ofCode "FM8RrPkBxCSMqf"⟩,
   ⟨["cari", "carian"], .ofCode "F30IQy020DUb0CGCmBc"⟩,
   ⟨["aghb", "caucasianalbanian"], .ofCode "Vg0B80B80CSNdBfb0"⟩,
   ⟨["cakm", "chakma"], .ofCode "CSe9BSw9CSFiBg1h"⟩,
   ⟨["cham"], .ofCode "BUMwBi9d2923"⟩,
   ⟨["cher", "cherokee"], .ofCode "Vc21061m1b1EMuCd25BPKyC7"⟩,
   ⟨["chorasmian", "chrs"], .ofCode "CWI0r"⟩,
   ⟨["common", "zyyy"],
    .ofCode "0Bsq5qBa1b1114n0v0Mh2191030181015542jDi06010Rp0Fz0Oc0BM40L93EKvb2w1u1911161a3a1ehwBrB11225
      1q1gB524ShmalZrH4Rf2v1CwO8m1n2913101pLm030d0d0l0Opnv0Bdec3Eh95Cnv0HB4BrYJ4pCu2BB40e1WPo9mk
      2b1i13E301vq5q5Dj616a4L6cBfB8CDGjGx6M3EcD7BoGtaB22Bp3g817t4BoFxjcjcCer6DrCc1By112021231b10
      161Bs1327161r131410361Jf2I32BdFPdBvC4BoTmB74Crce2e1e1B0aEtBkp11dB748n5EaBBb4g3c3Da4Cm6b40f
      b4Bj896B38t2b41BqJfcd2c395Bj7e2a687E21CtBGJHz0uCn"⟩,
   ⟨["copt", "coptic", "qaac"], .ofCode "F30Q803110D01D0dLCgD756Hr0CGF4r"⟩,
   ⟨["cuneiform", "xsux"], .ofCode "DAU0ZlCuD214bFf"⟩,
   ⟨["cprt", "cypriot"], .ofCode "CSHk24B838BW05201B7113020"⟩,
   ⟨["cpmn", "cyprominoan"], .ofCode "CSHk1MT2Cq"⟩,
   ⟨["cyrillic", "cyrl"], .ofCode "Tg0Bv21010102050GmIfGJsaEg0C40Dj0EJ3vBv0BGV8CnXYm1CJV4Bpx0"⟩,
   ⟨["deseret", "dsrt"], .ofCode "CTCwC7"⟩,
   ⟨["deva", "devanagari"], .ofCode "Tg0BSjCa2B6FHcB211BC60BKZr9EmvBFEo9"⟩,
   ⟨["diak", "divesakuru"], .ofCode "CYW862027111t112b99"⟩,
   ⟨["dogr", "dogra"], .ofCode "COsbBRKw9BEOuBn"⟩,
   ⟨["dupl", "duployan"], .ofCode "F30Qf110o1LUf0EEUjCy5c387927"⟩,
   ⟨["egyp", "egyptianhieroglyphs"], .ofCode "DFDsBEtaEGy"⟩,
   ⟨["elba", "elbasan"], .ofCode "F30Qd0CSOiB3"⟩,
   ⟨["elym", "elymaic"], .ofCode "CWJcm"⟩,
   ⟨["ethi", "ethiopic"],
    .ofCode "Vq0EC9C0132610132B4132w132610132e1Bk132Bu2v3pHC6m9616161616161616BIFu525259616DIQ1613111e"⟩,
   ⟨["gara", "garay"], .ofCode "BR00e030CTZ4B13s81"⟩,
   ⟨["geor", "georgian"], .ofCode "F30BI90DAuB110502BbDE8B622Zm0DLxB11050H70"⟩,
   ⟨["glag", "glagolitic"], .ofCode "F30Qb010Km020H50DDd0EFa0DEtCnNf0BGWj0DHTs61g261114"⟩,
   ⟨["goth", "gothic"], .ofCode "F30Qc120B40CSAeq"⟩,
   ⟨["gran", "grantha"],
    .ofCode "CO91h1RsdEPw011u231BC60COFb317212l1611141921222060562634DJv110"⟩,
   ⟨["greek", "grek"],
    .ofCode "F30Q81201010a0Ba020B672310401012101j1BqefGWu4Be444Cc2Iul252B125271010101u2Bg1e1d251i2218Cm
      0Fk0BLV20XMiC6h0CEZrBx"⟩,
   ⟨["gujarati", "gujr"], .ofCode "CO91h1Hv218121l16111429121220f32b76BQZs9"⟩,
   ⟨["gong", "gunjalagondi"], .ofCode "F30CJo1CXMi5111B0111579"⟩,
   ⟨["gurmukhi", "guru"], .ofCode "CO91h1Eb215412l16111111201441223073107gBRDl9"⟩,
   ⟨["gukh", "gurungkhema"], .ofCode "COt0DPZeBl"⟩,
   ⟨["han", "hani"],
    .ofCode "F30MNkp1CgcFxqf121c1c1c2068F70E4fwB190BcB3BkBcfbBf0Cgoa4Cou1HB3BsWL3BXs7WKwK52CxYb1Hu4BETw
      1c1BBF2hILi1DTaBTQnwELd6G52GE1eHZkfR9CQiP1BPuFH65EMf"⟩,
   ⟨["hang", "hangul"],
    .ofCode "EQwH3IFd2491ce260Ff0BhClD5uBtuBGNdsRvLYbcm4BcKM91Hu4Bmu35252522"⟩,
   ⟨["hanifirohingya", "rohg"], .ofCode "BR00e030w0E30CTSbB389"⟩,
   ⟨["hano", "hanunoo"], .ofCode "GIgm"⟩,
   ⟨["hatr", "hatran"], .ofCode "CULki1154"⟩,
   ⟨["hebr", "hebrew"], .ofCode "Vj1S0Bi8q45CPBcp1410111119"⟩,
   ⟨["hira", "hiragana"], .ofCode "NDd2491cg510413Cd27Ci1CEDs1Hu4a0B91BWG9Hyi0t2RRx0"⟩,
   ⟨["armi", "imperialaramaic"], .ofCode "CUH4l18"⟩,
   ⟨["inherited", "qaai", "zinh"],
    .ofCode "Vr0201b1136202f111h1413BQ81ETfuUzBh1014Ok1FevCIM0fgdBB30CEBuB92mP42h726u3BGVDuGn"⟩,
   ⟨["inscriptionalpahlavi", "phli"], .ofCode "CVDci57"⟩,
   ⟨["inscriptionalparthian", "prti"], .ofCode "CVCgl27"⟩,
   ⟨["java", "javanese"], .ofCode "BUJcC51a41"⟩,
   ⟨["kaithi", "kthi"], .ofCode "COu9KBd0BHJi9BCNiBua0"⟩,
   ⟨["kannada", "knda"], .ofCode "CO91h1W2c121m19142812137161132912EIs01160n010BMC35"⟩,
   ⟨["kana", "katakana"],
    .ofCode "Vh0t0MH12491cg51041Cj33CnGofFsBa1CfCDN11HuBqBWFs3161110Hz2Be0e3"⟩,
   ⟨["kawi"], .ofCode "DAMwg1B43s"⟩,
   ⟨["kali", "kayahli"], .ofCode "BUFsBb"⟩,
   ⟨["khar", "kharoshthi"], .ofCode "CUTk31157121s224978"⟩,
   ⟨["khitansmallscript", "kits"], .ofCode "DWQ40HKrN1B50"⟩,
   ⟨["khmer", "khmr"], .ofCode "GL4Cl2969Niv"⟩,
   ⟨["khoj", "khojki"], .ofCode "CZi9BRA89BCY6h1Ba"⟩,
   ⟨["khudawadi", "sind"], .ofCode "COs1BRL69BDD2Bm59"⟩,
   ⟨["kiratrai", "krai"], .ofCode "DVXcBl"⟩,
   ⟨["lao", "laoo"], .ofCode "DZ5110141n101m2410161923"⟩,
   ⟨["latin", "latn"],
    .ofCode "Btp6pBb0c0205m1u1Mg30a01210901064re1110c0227111B20504cHp1BI21CCg0DHgB16Bc535c1BxBl07H3If0B
      t0d0gcCb0Bl160r0hB4CZ3vLb0BHBs7qCt3Bu211017ldIe0O9B61813VTy6BD6p6pCFx51B518CGWtu65"⟩,
   ⟨["lepc", "lepcha"], .ofCode "HR4Bj3e32"⟩,
   ⟨["limb", "limbu"], .ofCode "COt0EGyu1b4b403b"⟩,
   ⟨["lina", "lineara"], .ofCode "CSHrB8BI4Im9la7"⟩,
   ⟨["linb", "linearb"], .ofCode "CSAgb1p1i111e2dyDe524B838"⟩,
   ⟨["lisu"], .ofCode "Tg0g0MJo1BFYcBbBHOg0"⟩,
   ⟨["lyci", "lycian"], .ofCode "IW20CJW5s"⟩,
   ⟨["lydi", "lydian"], .ofCode "F30MLd0CHWup50"⟩,
   ⟨["mahajani", "mahj"], .ofCode "F30CJobBRKw9BCTaB2"⟩,
   ⟨["maka", "makasar"], .ofCode "DAM0o"⟩,
   ⟨["malayalam", "mlym"], .ofCode "CO91h1Zmc121Be12154f2pEF60n0BMC52"⟩,
   ⟨["mand", "mandaic"], .ofCode "BSg0O7r20"⟩,
   ⟨["mani", "manichaean"], .ofCode "BSg0CTGfB24b"⟩,
   ⟨["marc", "marchen"], .ofCode "CZUov2l1d"⟩,
   ⟨["gonm", "masaramgondi"], .ofCode "COs1CXJu6111B730111889"⟩,
   ⟨["medefaidrin", "medf"], .ofCode "DWEgCi"⟩,
   ⟨["meeteimayek", "mtei"], .ofCode "BUT4mFlB929"⟩,
   ⟨["mend", "mendekikakui"], .ofCode "FDM8Fg2f"⟩,
   ⟨["merc", "meroiticcursive"], .ofCode "CUQwn4j2B9"⟩,
   ⟨["mero", "meroitichieroglyphs"], .ofCode "IW50CLTuv"⟩,
   ⟨["miao", "plrd"], .ofCode "DWJsC24Bk7g"⟩,
   ⟨["modi"], .ofCode "BUA09BEAmBwb9"⟩,
   ⟨["mong", "mongolian"], .ofCode "GOop6Cg7B6CBg0EIh153CKZwc"⟩,
   ⟨["mro", "mroo"], .ofCode "DVC0u1941"⟩,
   ⟨["mult", "multani"], .ofCode "CVy9CUFs610131e1a"⟩,
   ⟨["myanmar", "mymr"], .ofCode "EJsEfBPSu0ExuCpvBDQ8j"⟩,
   ⟨["nabataean", "nbat"], .ofCode "CUIwu88"⟩,
   ⟨["nagm", "nagmundari"], .ofCode "FCPkB5"⟩,
   ⟨["nand", "nandinagari"], .ofCode "COs1Yw9EJl08070BMBx5BFAi72B92a"⟩,
   ⟨["newtailue", "talu"], .ofCode "GZcB74p6a31"⟩,
   ⟨["newa"], .ofCode "CXMoCj14"⟩,
   ⟨["nko", "nkoo"], .ofCode "BR00e030LkBm22CPBy1"⟩,
   ⟨["nshu", "nushu"], .ofCode "DWQ10RY6Kz"⟩,
   ⟨["hmnp", "nyiakengpuachuehmong"], .ofCode "FBOgB83d2941"⟩,
   ⟨["ogam", "ogham"], .ofCode "GE0s"⟩,
   ⟨["olchiki", "olck"], .ofCode "HTcBb"⟩,
   ⟨["olonal", "onao"], .ofCode "COs1FAHuB640"⟩,
   ⟨["hung", "oldhungarian"], .ofCode "IW2020DUb0f0CIUeBedBe75"⟩,
   ⟨["ital", "olditalic"], .ofCode "CSVsz92"⟩,
   ⟨["narb", "oldnortharabian"], .ofCode "CUX4v"⟩,
   ⟨["oldpermic", "perm"], .ofCode "F30Q8052a0K70CRRwB6"⟩,
   ⟨["oldpersian", "xpeo"], .ofCode "CTA8z4d"⟩,
   ⟨["oldsogdian", "sogo"], .ofCode "CWD4B3"⟩,
   ⟨["oldsoutharabian", "sarb"], .ofCode "CUW8v"⟩,
   ⟨["oldturkic", "orkh"], .ofCode "IW20DUd0CIRbC0"⟩,
   ⟨["olduyghur", "ougr"], .ofCode "BSg0CTHt0BFxp"⟩,
   ⟨["oriya", "orya"], .ofCode "CO91h1Lf217212l1611142821227241142hETm0n0"⟩,
   ⟨["osage", "osge"], .ofCode "Vd02060C40CSJzz4z"⟩,
   ⟨["osma", "osmanya"], .ofCode "CTGgt29"⟩,
   ⟨["hmng", "pahawhhmong"], .ofCode "DVHcBxa9161k5i"⟩,
   ⟨["palm", "palmyrene"], .ofCode "CUI0v"⟩,
   ⟨["pauc", "paucinhau"], .ofCode "CZIoBk"⟩,
   ⟨["phag", "phagspa"], .ofCode "GOq110CG10EIi0BGX1Bj"⟩,
   ⟨["phnx", "phoenician"], .ofCode "CUMgr30"⟩,
   ⟨["phlp", "psalterpahlavi"], .ofCode "BSg0CTLrh73c6"⟩,
   ⟨["rejang", "rjng"], .ofCode "BUH4zb0"⟩,
   ⟨["runic", "runr"], .ofCode "GEwCg"⟩,
   ⟨["samaritan", "samr"], .ofCode "CEwB92eKJu0"⟩,
   ⟨["saur", "saurashtra"], .ofCode "BUC8Bx8b"⟩,
   ⟨["sharada", "shrd"], .ofCode "CO90FIt0102120BMCn520BCUnCn"⟩,
   ⟨["shavian", "shaw"], .ofCode "F30CTA0Bb"⟩,
   ⟨["sidd", "siddham"], .ofCode "CXXcBh2B1"⟩,
   ⟨["sgnw", "signwriting"], .ofCode "EZCgS3f41e"⟩,
   ⟨["sinh", "sinhala"], .ofCode "COs1BD721h3n181026304510176922ECl0COZqj"⟩,
   ⟨["sogd", "sogdian"], .ofCode "BSg0CULzB5"⟩,
   ⟨["sora", "sorasompeng"], .ofCode "CWQ0o79"⟩,
   ⟨["soyo", "soyombo"], .ofCode "CZFkCa"⟩,
   ⟨["sund", "sundanese"], .ofCode "HNkBrH47"⟩,
   ⟨["sunu", "sunuwar"], .ofCode "Vc1109020s030CYT2xe9"⟩,
   ⟨["sylo", "sylotinagri"], .ofCode "COs1Dk9BRG0B8"⟩,
   ⟨["syrc", "syriac"], .ofCode "Vf12110l0227110Ub0e120w0aaq0Dzd1Bn22HkaFX9010"⟩,
   ⟨["tagalog", "tglg"], .ofCode "GHkl90l1"⟩,
   ⟨["tagb", "tagbanwa"], .ofCode "GJ11B5c1211"⟩,
   ⟨["taile", "tale"], .ofCode "Vc15130DPv9CM6t24"⟩,
   ⟨["lana", "taitham"], .ofCode "HDsBq1s2a696d"⟩,
   ⟨["taiviet", "tavt"], .ofCode "BUQgBuo4"⟩,
   ⟨["takr", "takri"], .ofCode "COs1BRL69BEE6Bl69"⟩,
   ⟨["tamil", "taml"],
    .ofCode "CO91h1P0115321331101131323b4432132060ekEPz0BMI80BDA5010Bj1DKzBdd0"⟩,
   ⟨["tangsa", "tnsa"], .ofCode "DVDcC619"⟩,
   ⟨["tang", "tangut"], .ofCode "NCwfNr0DIYw0vGOf8VbO88"⟩,
   ⟨["telu", "telugu"], .ofCode "CO91h1Sic121m1f281213711220232978EMa0n0"⟩,
   ⟨["thaa", "thaana"], .ofCode "BR00e120Bs9HqBdCPJ40a0"⟩,
   ⟨["thai"], .ofCode "Tg0q0B70B90CYvBl5r"⟩,
   ⟨["tibetan", "tibt"], .ofCode "ECoBz1z4B21z1e1641IUt3"⟩,
   ⟨["tfng", "tifinagh"], .ofCode "Ve0102010LNqBj71e0"⟩,
   ⟨["tirh", "tirhuta"], .ofCode "CO91h1FJ00BMC59BDPyBz89"⟩,
   ⟨["todhri", "todr"], .ofCode "Vd020209010C20CSRdBf"⟩,
   ⟨["toto"], .ofCode "Tg0FBG3u"⟩,
   ⟨["tulutigalari", "tutg"], .ofCode "DNq9EJu010BMC35F70BDDq910201B119102013191181"⟩,
   ⟨["ugar", "ugaritic"], .ofCode "CSZct10"⟩,
   ⟨["vai", "vaii"], .ofCode "BTDcIb"⟩,
   ⟨["vith", "vithkuqi"], .ofCode "CTN4a1e16111a1e1611"⟩,
   ⟨["wancho", "wcho"], .ofCode "FCAwBl50"⟩,
   ⟨["wara", "warangciti"], .ofCode "CYTkCac0"⟩,
   ⟨["yezi", "yezidi"], .ofCode "BR00e030Bs9CUFyB51221"⟩,
   ⟨["yi", "yiii"], .ofCode "NDd15927G70BEJgBGc3BiYUa4"⟩,
   ⟨["zanabazarsquare", "zanb"], .ofCode "CZDcBz"⟩]

end Peg.Unicode
