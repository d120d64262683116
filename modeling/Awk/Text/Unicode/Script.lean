import Awk.Text.Unicode.Age

/-!
# Scripts

The script of a code point, and the scripts that a code point is used with.  The second table lists the
code points by which the two differ.
-/

namespace Awk.Text.Unicode

def scriptTable : CodeSet.Table := .ofText
  "Adlam =Adlm HDEuCxfjfb, Ahom EBRcBadofw, Anatolian_Hieroglyphs =Hluw ESSeWk, Arabic =Arab
   CHcecfcncccBfcjmzcEdcBhDdBvJhBecbgCwcBcDNTxEkrNydDbdCbiaBhpEjecFeFVoBeCqcCedDGLtdcBacbcadacjcd2ca
   hafa2cacccbcada4cacbcaddcg2cdcacjcqgccecqCbb, Armenian =Armn BZdBldBxdcDOZke, Avestan =Avst
   DXCyCbeg, Balinese =Bali KFwCycBx, Bamum =Bamu CLCqDjCVCrVw, Bassa_Vah =Bass FHKiBddf, Batak
   =Batk KNgBzjd, Bengali =Beng DPodchdbdvcgcaeddidbddjafbcedy, Bhaiksuki =Bhks EDOiicBscnlBc,
   Bopomofo =Bopo BCsbRLyBqEjBf, Brahmi =Brah DZAeCzfBjka, Braille =Brai PDwJv, Buginese =Bugi
   JWaBbdb, Buhid =Buhd IUyt, Canadian_Aboriginal =Cans HOyYpVpCrDTPrp, Carian =Cari DTYmBw,
   Caucasian_Albanian =Aghb DUXsBzma, Chakma =Cakm DZKaCacr, Cham CMJwCckndjdd, Cherokee =Cher
   HLgDhdfCFJfDb, Chorasmian =Chrs DYXcBb, Common =Zyyy, Coptic =Copt =Qaac BMgnPJlElgg, Cuneiform
   =Xsux EFBsBJlDzEgcemHn, Cypriot =Cprt DVZkfdacBrcbeada, Cypro_Minoan =Cpmn EKYyDu, Cyrillic =Cyrl
   BNkFcdGmIVpkGfaCzaGFoBfBTObDrBHEdbDHPhCjBia, Deseret =Dsrt DUMaDb, Devanagari =Deva
   DKqDcfodzCIJhBfBREnj, Dives_Akuru =Diak ECKugdadhcbcBdcbdlkj, Dogra =Dogr ECAyCh, Duployan =Dupl
   GMDsEcgmeiijdd, Egyptian_Hieroglyphs =Egyp ELDgBQrlFXq, Elbasan =Elba DUVwBn, Elymaic =Elym
   DYYyw, Ethiopic =Ethi GVgCucddgcacddBocddBgcddgcacddocCecddCodBfezJVbwkg7cgBVKdf2dfkgcgEPYggcdcbc
   o, Garay =Gara DXZcBleBcjb, Georgian =Geor GHsBlcagadBqcdEJxBqdcGEbBlcaga, Glagolitic =Glag
   QRgDrGIZhgcqdgcbce, Gothic =Goth DUEaBa, Grantha =Gran EADsdchdbdvcgcbcedidbdcdahaggdgee, Greek
   =Grek BHwdccddcafacacccactcCkppJNreBzefeDhaMjvdfdBldfdh3cacBedCacocndfcsdcciLkaCAJfaBGNjDasaDAXsC
   r, Gujarati =Gujr DZlccicccvcgcbcedj2ccdaqddlig, Gunjala_Gondi =Gong EEBwfcbcBkcbcfij, Gurmukhi
   =Guru DUnccffbdvcg3cbdacefbdceaidcaiq, Gurung_Khema =Gukh FDRsCf, Han =Hani RPwzcDknIfBwacaBaipdB
   LdJTnCnBFBjBHSjObdEbBSIjbnbCCOlCLFbBhGDthIndINppLBkqXxDQxUvCFzHHygGFf, Hangul =Hang GLkJvLLfbJyDp
   EkBeCoBeBTAoBcYuQNrnwfBwPAjBeef2dfdc, Hanifi_Rohingya =Rohg DXWqBnjj, Hanunoo =Hano ITsu, Hatran
   =Hatr DWIascbge, Hebrew =Hebr CCvCcjBaffDOVxzceca2cbcj, Hiragana =Hira SHdDhhcFPEwLataBecYMwa,
   Imperial_Aramaic =Armi DWBwvci, Inherited =Zinh =Qaai BDoEhKsbRlkBbaBCjdGOyBeTuccmcgfahaebHrClUfb
   HnBgFTydEebCZUkprnBLoaItaGFbaCTCvBtdwUzcshdgBfdBTLHjJf, Inscriptional_Pahlavi =Phli DXGqsgh,
   Inscriptional_Parthian =Prti DXFkvdh, Javanese =Java CMEyCzdjfb, Kaithi =Kthi DZFcCola, Kannada
   =Knda ETcmcccwcjcedicccdibhbcddjcc, Katakana =Kana SKvDldcJhpIbBucDjCZHfjcBsCOUddcgcbcaLccBzapd,
   Kawi EERwqcBoeBc, Kayah_Li =Kali CMAaBtca, Kharoshthi =Khar DWTcdcbghcccBcdcfjii,
   Khitan_Small_Script =Kits FJIiaKGySbBqa, Khmer =Khmr IXkDpdjhjStBf, Khojki =Khoj DZTwrcBu,
   Khudawadi =Sind EAAqCggj, Kirat_Rai =Krai FIIiCf, Lao =Laoo FMvbcacecxcacwdecacgcjdd, Latin =Latn
   CnzhzBwaqagwcBecRgBoeJXcBlhBwgdgmcCrCoJvOgaoarmFmbhaBcasBoECuBfBULnDxeCodbcachwnBFlBqcicdBEDrgBOl
   zhzDCgfcBpciDDNqBehf, Lepcha =Lepc KPsCdeoec, Limbu =Limb JMeBeclflfael, Linear_A =Lina
   DVFsLykvlh, Linear_B =Linb DSYqlczcscbcodnBjEs, Lisu CKKuBvBUMba, Lycian =Lyci DTXgBc, Lydian
   =Lydi DWKmzga, Mahajani =Mahj DZNcBm, Makasar =Maka EEQqy, Malayalam =Mlym EYamcccBycccffpdz,
   Mandaic =Mand DDgBbda, Manichaean =Mani DXAmBmfl, Marchen =Marc EDSqBfdvcn, Masaram_Gondi =Gonm
   EDYegcbcBreacbcijj, Medefaidrin =Medf FISeDm, Meetei_Mayek =Mtei CMSmwHuBtdj, Mende_Kikakui =Mend
   HCUyHodp, Meroitic_Cursive =Merc DWPkxftdBt, Meroitic_Hieroglyphs =Mero DWOeBf, Miao =Plrd
   FIZoCwfCeiq, Modi EBHgCqmj, Mongolian =Mong JCibdacthDkiBqDSCcm, Mro =Mroo FHEuBecjfb, Multani
   =Mult DZYugcacdcock, Myanmar =Mymr GBoGdCGAzBeDuBfBPAnt, Nabataean =Nbat DWEiBeji, Nag_Mundari
   =Nagm HBPoBp, Nandinagari =Nand ECQyhdBtdk, New_Tai_Lue =Talu JRcBrfzhkeb, Newa EANoDnce, Nko
   =Nkoo CYiCgdc, Nushu =Nshu FJIfaYVnPf, Nyiakeng_Puachue_Hmong =Hmnp HAEaBsendjfb, Ogham =Ogam
   INoBc, Ol_Chiki =Olck KSuBv, Ol_Onal =Onao HBZkBqfa, Old_Hungarian =Hung DXRsByoByif, Old_Italic
   =Ital DUCeBjkc, Old_North_Arabian =Narb DWYaBf, Old_Permic =Perm DUFgBq, Old_Persian =Xpeo
   DUIiBjfn, Old_Sogdian =Sogo DYQiBn, Old_South_Arabian =Sarb DWWuBf, Old_Turkic =Orkh DXMuCu,
   Old_Uyghur =Ougr DYUqz, Oriya =Orya EEjcchdbdvcgcbcedidbdcicfbcedr, Osage =Osge DUSuBjfBj,
   Osmanya =Osma DUQyBddj, Pahawh_Hmong =Hmng FHMeCrljcgcugs, Palmyrene =Palm DWDcBf, Pau_Cin_Hau
   =Pauc EDCaCe, Phags_Pa =Phag CLSqCd, Phoenician =Phnx DWJgBbea, Psalter_Pahlavi =Phlp DXHwridng,
   Rejang =Rjng CMBwBjma, Runic =Runr IOuCwek, Samaritan =Samr DAuBtdo, Saurashtra =Saur CLVcCrjl,
   Sharada =Shrd DZOyDr, Shavian =Shaw DUPcBv, Siddham =Sidd EBCiCbdBl, SignWriting =Sgnw
   GWTkZbqeco, Sinhala =Sinh FCzccrexcicadgeaffcachhjdcDULht, Sogdian =Sogd DYSeBp, Sora_Sompeng
   =Sora DZIeyij, Soyombo =Soyo ECXsDe, Sundanese =Sund KKuClJxh, Sunuwar =Sunu EDLwBhpj,
   Syloti_Nagri =Sylo CLQeBs, Syriac =Syrc CQyncChdcKnk, Tagalog =Tglg ISmvka, Tagbanwa =Tagb
   IWemcccb, Tai_Le =Tale JPgBdde, Tai_Tham =Lana JXgCkcBcdkhjhn, Tai_Viet =Tavt CMOuCoze, Takri
   =Takr EBMeCfhj, Tamil =Taml EJibcfeccdebcacbebecelfeeccddahapuEALiBxoa, Tangsa =Tnsa FHGqDacj,
   Tangut =Tang FJIeaBgJBzjBDnTti, Telugu =Telu EOemcccwcpdicccdibccdadddjii, Thaana =Thaa CVwBx,
   Thai FHxCfgBb, Tibetan =Tibt FRsCtcBjfBmcBjcocgfb, Tifinagh =Tfng RCyCdibpa, Tirhuta =Tirh
   EASmCtjj, Todhri =Todr DVDgBz, Toto HATkBe, Tulu_Tigalari =Tutg EAIqjcadacBlcjcadacdcjcbjb,
   Ugaritic =Ugar DUHcBdca, Vai =Vaii CKMqLn, Vithkuqi =Vith DVAekcocgcbckcocgcb, Wancho =Wcho
   HAVgCfga, Warang_Citi =Wara ECHcDena, Yezidi =Yezi DYLkBpccdb, Yi =Yiii CIPkBSueCc,
   Zanabazar_Square =Zanb ECUqCt"

/-- The code points that are used with a script and do not belong to it, or the other way round. -/
def scriptExtensionTable : CodeSet.Table := .ofText
  "Adlam CIhaBhaJWpaFHia, Arabic CHoapaeaBhalkBbaJUtaFHiaDAKbbCDlBb, Armenian BDwa, Avestan HbaRFtb,
   Bengali BAyaCMvbsbHJfacadbca2jadafadcCBAga, Bopomofo BBjaccoaRCqcfjcmlddahaHoaCZTibKxe, Buginese
   CMHza, Buhid IUnb, Carian HbaLZnadaFGea, Caucasian_Albanian BDsa2Bta, Chakma DTmjCKfj, Cherokee
   BDoccahbxbmb, Common HbaTxalacccakacaFzaZoapaeaBhaBEybCWsaCGmcCubHwbcaBViaoaidcfccdaBFpaBgaladaFF
   eazblafacaQnpccdacjcmrfcafdDobeaDnbFspBhBlkaBxBnCfBwqlCaaDlyleDtBeBROkhLljJlaGfaBFPnbKcbKxelaBubN
   pcfBseiQcBaCSHxdIPxrLRzb, Coptic HbaWnaebcaEfbQDuaDCPdBb, Cypriot DTImcfBsei, Cypro_Minoan DTImb,
   Cyrillic BAyaCqc3cadagaOibJQoaGEla, Devanagari BAyaCMvbsbHJfBmcbBNbaBZFsj, Dogra DOmlCIDdj,
   Duployan HbaWubcazbQIiaFUWqd, Elbasan HbaWsa, Ethiopic BEca, Garay CHoapaea, Georgian
   HbaBVmaEIsaFVjaFGha, Glagolitic HbaWqacaOtadaJyaEIsaFVjaFGzaBTNga, Gothic HbaWrbdaBpa, Grantha
   DNtbsbYrnGKbacbBfcebBNbaDNTraETxbca, Greek HbaWnbda2calaBvadaBvaJYybZsa, Gujarati DNtbsbCIDnj,
   Gunjala_Gondi HbaDHlb, Gurmukhi DNtbsbCIDnj, Gurung_Khema DOna, Han HbaRWzpccdacjcmlddahafdHgaFtp
   BhBlkaBxBnCfBwqlCaaDlyleDtBeBROkhBHBabKxeDCHfrLRzb, Hangul SErcfjcmrahaHoaCZTibKxe,
   Hanifi_Rohingya CHoapaeaBhaFsa, Hanunoo IUnb, Hebrew BDvb, Hiragana SErcfjcmrfcafbDodeaDnbCZThbKx
   elaBub, Inherited BDoocbcanadcibcbradatagafmKsbRlkBbaBCjbHJyccmcgfahaebHrbCdacaBDeaFTydEebDBQkaGF
   ba, Javanese CMHza, Kaithi DOojNXyaBUFfj, Kannada DNtbsbHJfacbhayacaCASyf, Katakana BDtaBeaQZucfj
   cmrfcafbDodeaDnbCZThbKxelaBub, Kayah_Li CMBua, Khojki EDijCHOjj, Khudawadi DOmbCIDnj, Latin
   HbaTxalacccakacaBnocbcanadcibcbBnagafmKsbBVfbCXlaEXxaVvaHlaEZnaBTUnhVfa, Limbu DOna, Linear_A
   DTItBs, Linear_B DTImcfBsei, Lisu BAyaraRDlb, Lycian MGoa, Lydian HbaRFua, Mahajani HbaDHllCIDdj,
   Malayalam DNtbsbHJpayaCATac, Mandaic CJoa, Manichaean CJoa, Masaram_Gondi DOmb,
   Meroitic_Hieroglyphs MGra, Modi CLSaj, Mongolian JCkbcaDCkaFZubgd, Multani DYkj, Myanmar CMBua,
   Nandinagari DOmbBInjGBiajaiaCASsf, Nko CHoapaeaDPPfb, Ol_Onal DOmb, Old_Hungarian MGoadaFGeaqa,
   Old_Permic HbaWnagclaOea, Old_Turkic MGoaFGga, Old_Uyghur CJoaDUSwa, Oriya DNtbsbHJpaya, Osage
   BDpadahaCza, Phags_Pa JCkbcaDCkaFZva, Psalter_Pahlavi CJoa, Runic IRrc, Samaritan RMva, Sharada
   DNtaHKgacadbdaCATsfda, Shavian Hba, Sinhala DOmbHKna, Sogdian CJoa, Sunuwar BDobcakadaBdaea,
   Syloti_Nagri DOmbEzj, Syriac BDrbdbcawadcibcaBCeapbdaBhalkBbaIXsaca, Tagalog IUnb, Tagbanwa IUnb,
   Tai_Le BDobgbeaFAaj, Takri DOmbCIDnj, Tamil DNtbsbHJpaCBBlaBOEgacaCeb, Tangut SEapTca, Telugu
   DNtbsbHJpaya, Thaana CHoapbdaCnjDPThala, Thai BAyaBbaBsaBua, Tibetan SEyd, Tifinagh BDqacadaca,
   Tirhuta DNtbsbHKnaCATaj, Todhri BDpa2dakacaCxa, Toto BAya, Tulu_Tigalari EXajGBracaCASyfHga,
   Yezidi CHoapaeaCnj, Yi SErbgjdhIqaDAEge"

/-- The code points of a script.  Those that no other script has are common, but for the surrogates and those for
private use. -/
def script? (name : String) : Option CodeSet :=
  if name = "Common" then
    some (assigned.diff (.unionOf (.ofText "DDUuMMxCAHXpDSYndDSYn" ::
      scriptTable.map fun row => .ofWords (fun _ => .empty) row.2)))
  else CodeSet.ofTable? (fun _ => none) scriptTable name

def scriptExtension? (name : String) : Option CodeSet :=
  (script? name).map (·.symmDiff (.ofChars ((scriptExtensionTable.lookup name).getD []).flatten))

end Awk.Text.Unicode
