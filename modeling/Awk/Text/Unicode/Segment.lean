import Awk.Text.Unicode.Derived

/-!
# Where text may be divided

The Unicode standard divides text into characters as readers see them, words and sentences.  Its rules
are about classes of code points, one division of all code points for each of the three tasks.  Code
points of no class in a table belong to the class `Other`.
-/

namespace Awk.Text.Unicode

/-- The classes for the division into characters as readers see them. -/
def graphemeBreakTable : CodeSet.Table := .ofText
  "Extend =EX +Grapheme_Extend +Emoji_Modifier, SpacingMark =SM +Mc -Other_Grapheme_Extend
   FJvaEyaOmbmaBqcdgwaefdalcDSfacbCCOtacaBPDrb, CR na, Control =CN +Cf +Cc -Prepend kadaMDbbBbbCiaDG
   RbiBWMIiacJtJhFIl, L GLkDrCFOrBc, LF ka, LV CNDoa398Bca, LVT CNDpBa398cBa, Prepend =PP
   CHcfIiaByaOvbDdaBRoaDUGlaqaJlbUgaCBmacaJpaCwfBAzaRca, Regional_Indicator =RI HGOkz, T
   GRwDjCWXoBw, V GPcCtCWZxwCERdaed, ZWJ MDpa"

def wordBreakTable : CodeSet.Table := .ofText
  "ALetter =LE +Alphabetic -Ideographic -Extend -Katakana -Hebrew_Letter BBednfhbggcacqXfccaBsaEbaKy
   aCQkBvcbngChbcacecxcacjcbkade cawdLdBqvarffdeaebicfmnaCQkBzBkafaOiBddemBrfzDjCaDfaIEsDhhcBSVxokbE
   abXaecjleDuweaeBxcaebdedacazcEwaBOTxBaBmgCFVvLa taBec, Extend +Grapheme_Extend +Mc
   +Emoji_Modifier, Numeric =NU +Nd CHcfDyaEkaQtbDdaGLcaDPMxaqa, CR na, Double_Quote =DQ Bia,
   ExtendNumLet =EX +Pc MExa, Format =FO +Cf CHcfIiaByaOvbDdaIUbcDNDwaqaBWFZvDr, Hebrew_Letter =HL
   CFgBafdDOVzacjcmcecacbcbcj, Katakana =KA SGneDybeDmcdJhpIbBucDjCZHfCdCOUddcgcbcaLccBzapd, LF ka,
   MidLetter =ML CgaEvaBBsaSeaFtaJXzaDGBcaCoaHpa, MidNum =MN BsapaBGdaUdaFbbDraPgaJFgaDGCiaeaHcapa,
   MidNumLet =MB BuaMCgblaDGDqaGzaha, Newline =NL lbEraLZnb, Regional_Indicator =RI HGOkz,
   Single_Quote =SQ Bna, WSegSpace +Zs GeaLXfaBoa, ZWJ MDpa"

def sentenceBreakTable : CodeSet.Table := .ofText
  "OLetter =LE +Alphabetic -Lower -Upper -Extend CGpa, Lower =LO +Lowercase BGfaFDjBqdc, Upper =UP
   +Uppercase +Lt KVgBqdc, Extend =EX +Grapheme_Extend +Mc MDpa, Numeric =NU +Nd CHcfDybEjaQtbDdaGLc
   aDPMxaqa, STerm =ST +Sentence_Terminal -ATerm, Close =CL +Ps +Pe +Pi +Pf BiafaOWafCNgbfcdaGQVzc,
   ATerm =AT BuaMCsaDGDqaHga, CR na, Format =FO +Cf CHcfIiaQtbDdaIUcbDNDwaqaBWFZvDr, LF ka,
   SContinue =SC BsbnbBGdaSlaGtbSxaGByagaDBfbGAvaDAAxbcbBdbBebdbdalaGnbnbCva, Sep =SE FdaLZnb, Sp
   +Zs jacb"

end Awk.Text.Unicode
