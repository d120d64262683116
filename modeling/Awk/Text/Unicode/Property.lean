import Awk.Text.Unicode.CaseTable
import Awk.Text.Unicode.Script

/-!
# Properties that a character has or lacks

The sets of the Unicode standard for those of its properties with two values that do not follow from
others.
-/

namespace Awk.Text.Unicode

def basicTable : CodeSet.Table := .ofText
  "ASCII_Hex_Digit =AHex BwjifBbf, Bidi_Control =Bidi_C CIeaJVmbBbeCed, Dash BtaCAvaCaaFKkaBNqaDBefC
   kaBoaqaPbaEOjadaBgbfaBdaRfauaEiaCZWbbBmalaGoaFLpaMha, Default_Ignorable_Code_Point =DI
   GraZyaBBpaEGxbCKibDieDAqeBbeBypGKzaCZMqpJgaGfaDciCTLodHWyhBTKZmGBn, Deprecated =Dep MraBYwaDKuaca
   DCkbDIkfBAwbBZRYla, Diacritic =Dia +Grapheme_Link DqacaCuahafadbTkGcchgfsbfakbJueIcaCeqcBacacbcaF
   fhfbFfbfbecCqBaDokChkBjbExhBqjrBbCkavdBdaCxa2EyaCncCjazaIxaEyaPffcaEseCybBca2cafbCpbdbClaEjaBsbfe
   BagcalbBBecBRmicakaNkcMchdaBxodkEbaCdiElaDcbCnfDfyfahadcBzCkDmlBmkReaccmc2ocobEXlcFmaGuaTnfEcdDsa
   BSMlanbcaBdbDfbpBhDzcEgbIxrCgdFdaByaFucCodFxekcEzaBDZuaBDqpKlacaBwaBubCqaBDlaBTofcBpciYocGpbWafBn
   aBbePkcCtkBydJqaChaHdaDjcEcaGxaDebBqgeeDqbobDwaEvaJtaJnaOxaKfaBNjaUqaHYboURreCigVtbVbqDdbYGddcgcb
   LTiBtdwUzcefjhdgBfdFMxCjHngOmaCkdBDnbBCjgEgccc, Emoji +Extended_Pictographic BjahagjNJraYnacgcbca
   ebcdcbcadb2ccdheecacenkdbcadacrcbdflbhacadcdecbdddkdedbcedacadtdehafbcdcbkacbDgcGQXtdcHtcBvocBgaC
   jdCkDeemBtdkgdGrBjbEjbdaebDgbeafeJvaCuchazgdbjlcbfbcddmdbchdiceelehebcacdcfcccfHxejbedlccadccblcE
   nlDikndcondCfhlfBphBfDdJxEhocleCfgqbmfkgJxBNh, Emoji_Component =EComp BjahagjMBkaIgaDFTsaDOIxzToe
   CEbdBSVUrDr, Emoji_Modifier =EMod HHIxe, Emoji_Modifier_Base =EBase OLhaImardGSJwaCjcdadcEobdkwse
   afccciacazaHubfawafbGtceeDgarckamaWeadajhhakjdcCfaCkbcbcasccmIwcBri, Emoji_Presentation =EPres
   NHqbHydeadaUcbwbBzlBsauaoajbsbgbjagawaibcafadaiafbBdaBkacafccaCkczapaBHcbCaafaGPLfaHvaHjadjCyzcaz
   avadeccwbGtBgnicCrcvnBqfenqeaeCscacHedCkodcxtaBbboaDjDgBxCrhaecdcfdmbiiIulfaKyBucjcHcEjmejgCdiodk
   hi, Extended_Pictographic =ExtPict GnafaLYsanaIjaxaDnfqbOebnaDsaCtaBakfcHsaIyblakaChdcfclcEjlEndk
   2cahaeahalbqadafacafccameBucka2paOjbRwcubCaafaBVvanaXeacaGMRnJvocBgaCjfnbpadjtCeBcolavadicdkQrgMf
   jKfBxExEnlDiBqndCfhlfBphBfDdnBucjcQyJxBNh, Extender =Ext HbaUrbBHvaRaaYhaFiaDmaBCzaEyaDNgaCfaXoaP
   jaCraHKkaBseEabDqcBQBvaCGtaBLbaxaFiaEfawbBFZwaDBlbCFcaBcafaBVcaLiaEnbTfcBVkaBEOgbBTlbcaBQYbbBUgaB
   Gvc, Grapheme_Link =Gr_Link DNpa7EyaEgbraEvaEiaEyaHuaGzbCPmbBfaGcaZeaIuaDybCtbGQuaBUKlaBmaFwaFnaE
   faLyaJnaBJSsaCHjaBqapaCgaEsbFkaEnaGzaDvaEzcEkaEyaJtaEyaEpaEnaKkaKabGgaDgataDeaQgaKbbDeaQkbYZda,
   Hex_Digit =Hex BwjifBbfDSLmjifBbf, Hyphen BtaEyaBVxaHAaaDBebFIcaBCmaCZUmaGoaDka,
   IDS_Binary_Operator =IDSB SEabdjTea, IDS_Trinary_Operator =IDST SEcb, IDS_Unary_Operator =IDSU
   SEob, ID_Compat_Math_Continue +ID_Compat_Math_Start GwbgaMAhaekco, ID_Compat_Math_Start
   MWwafaxaGJJfaBaaBgaBaaBgaBaaBgaBaaBgaBaa, Ideographic =Ideo +Unified_Ideograph SEwbBaipcCYAwKjdac
   adj2cadbeCpdEbBSIlaBcJBzjBVpBqjNUmPfETCfUv, Join_Control =Join_C MDob, Logical_Order_Exception
   =LOE FKieEueEDtcdaCCXnbdacb, Modifier_Combining_Mark =MCM CKibdaFcahaebSobcceaBga,
   Noncharacter_Code_Point =NChar DSDcBfUhb16DSYpb, Other_Alphabetic =OAlpha BGfaBemWfnca2cbcaCvkBxm
   cgraDygfddbfaBkaBfpDzkDybeicccdEdaCjleghtCdbdocbgclbBecChg2dblalbBecChefbdbfaBfbeamcChhcccbwbxcfc
   Chg2dbkblbBfaCieeccclaBpeCgg2ccjbmbBecChg2ccjbmbqandChg2cclalbBecCyfcachtbCkadgtaDwadfcbraGiskkcB
   jEhlcaddydfcccdgedolcaldCLpb3BfbCpsHhbBjaEplfiIpeCgjdtCxbmcByeBxoCjcBfidbCgkBzsPxBhCOoBzDKhBfBTQb
   hBjbNrajayeDlbBzpcaCgaBneBdlBudBxlBmaCqnnajbBucBzaccdbgaBtegaJehBDZwaDEeeCMhccbgdBEjdCoaMkbDcaKac
   CcnBubmcBuikaCkcBlltbCgcBxmpbDpidahadaGcjydChg2dblalbDhicadacdcbEamccEdrJegdgBebDfocaEdkEanJymJof
   cbdbeacaFngdffaBdjBrecdtkBvnPshcgDgvcnEtfeacbcccaeaCpecbcdNldkbcaBxgecYYoqFJdacCcidDqbBDAzaNKkgcq
   dgcbceDxaDHwaCZxz2hz, Other_Default_Ignorable_Code_Point =ODI BGpaFImbCKibDHoaGLjaDACqaDciBWMIiac
   BdDtExJhFIl, Other_Grapheme_Extend =OGr_Ext DRyazaNvazaDzazaIzacafbcbkbEaazaEqaqaDMsaBfaBNlagacag
   bDyaCubBOjaGCwbBTWuaEfaBGNmbGWnaEnaKfapakaDtakadaccgaIranaJiaKdaYkanaCHgaBEOlbBKXobhfBTLBaDr,
   Other_ID_Continue =OIDC HbaBBsaGAkiCLdaCJabGKsaDAEka, Other_ID_Start =OIDS JHlbDGkawaFVxb,
   Other_Lowercase =OLower GoaqaTiiibBfeDtaCbaFDaaEQaCkoaBjBkBAoaoarmIepBGrzCWpbBUGlbIdaFacebBHjdkaB
   IWtadccBpciDDZiCj, Other_Math =OMath DqaBHycdaBbbdbKQzaBccmaBhdzbpbComfaebfetafadjcaeehaebdbcccfe
   dgeCyedd2cbcacedbfbfrdbcacgcahbLfdGnbcazasaRebnigegbdbeepacadfzbCgacaBedkbNfbBgjPovCmdBhbDCLgacaf
   aIeacaDCOwDgcCscbdadbddclcacgcCmcddhcgcBbcdcecaegcNbdycycBecycBecycBecycBecychdBxIIrdcBacbcadacjc
   d2cahafa2cacccbcada4cacbcaddcg2cdcacjcqgccecq, Other_Uppercase =OUpper MQqpBGhzGSIzz2hz,
   Pattern_Syntax =Pat_Syn BholgBbdcaBbdBjgcacbcacb2faeayaBgaLUfxjodscjLuBBrGfYfBfBRnTtExOwcfyqaCZRa
   bKcb, Pattern_White_Space =Pat_WS jetaDxaLYnbzb, Prepended_Concatenation_Mark =PCM
   CHcfIiaByaOvbDdaDVXzaqa, Quotation_Mark =QMark BiafaFcaqaLWvhBabFIeaRqdocDABqdHiafaDnb, Radical
   RPwzcDknIf, Regional_Indicator =RI HGOkz, Terminal_Punctuation =Term +Sentence_Terminal
   BsaobBGdajaWaaCvapaIyhcaJcaCefdaccBiaCGybGraffBQlacdBIrcIzaeaBoacbdaBGvaIqcGVialacbQsaBSHxaKlaIxc
   BBtaKuaBFPpbdbHbaobCvaBPraBxaBSpaHsaRxfCrfDmdBUbeSzaUlanbNxbBVwbQbaBuaDAteBAUvaBHeaBOWuacb,
   Sentence_Terminal =STerm BhanaraCAcaFscGzaBscJnaCkacaebLibCPxbBElafbBDuaHrbGcbBuagaMdbNrdGhblbdbB
   ecHgbCobBJxaybkcEUycLvaoaxbQoaBSHxaKlbIuaeaOtbDjbDsaFxbFscFpbJqaBFCxadbCiaebGoanaraCoaEDxbBXeeBtd
   HibEodEycFabharbDlbcbEfaLnbEobOkbgoEcbJqcTyacaJsbDkbQfbBArbCxbBCMcbFeaCobmaVibLlaBDOhaLIna,
   Soft_Dotted =SD EbbHpaKwaBfaCbavaMjaDvacaJMoaCaaoaeaFdaGcaQgaIhbEGhaGELib12BzbDFzaLubBba,
   Unified_Ideograph =UIdeo TSaJTnCnBFBjBICtbcacblacacbdcDVEdCLFbBhGDthIndINppLBkqXxGRrHHygGFf,
   Variation_Selector =VS JCtccaDJCbpBWNKzJf, White_Space =WSpace =space jetaDxaBbaIHkaDPokBebgaBwaF
   Xxa"

def basic? (name : String) : Option CodeSet :=
  CodeSet.ofTable? (fun
    | "Has_Lower" => some (caseSet lowerMap)
    | "Has_Upper" => some (caseSet upperMap)
    | name => script? name) basicTable name

end Awk.Text.Unicode
