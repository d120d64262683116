import Awk.Text.CodeSet

/-!
# Editions of the Unicode standard

The code points that each edition assigned.
-/

namespace Awk.Text.Unicode

/-- The code points that came with each edition, the first edition first. -/
def ageTable : CodeSet.Table := .ofText
  "1.1 aThfBdCfDkiBucjxCrBbbtbfaeaggcactcBrcgea3cacrolcCnclcBokCa2dbeBbdhdbCeBldgcBmcaBnjcinBageyapa
   eaczgsondCtdecocBddjUaccCadrdeeyrcchdbdvcgcaeddacgdbdckafbceduiadffbdvcg3cbdacefbdcmdcaionccgcacc
   cvcgcbcedj2ccdaqagjscchdbdvcgcbdddhebdcjbfbccfksbcfeccdebcacbebecehccfeeccdkaqlpcchcccwcjcefgcccd
   ibkbfjtbchcccwcjcefgcccdibiacbfjtbchcccwcpffdccdkajbfjFqCffBcBmbcadbcadahdcgcc2cadbcmccdecacfdjdb
   RjBllBmfafDlgCpgDdEOlFygDlhvdfdBldfdh3cacBedCacocndfcsdccicBucwBkgeBaskBmrBfCeBbBvoDmwJhpacEqFeBk
   BckwFiwFtlDbrthDhFqdcddBbcBicacdeacgdgpBeexcnDDiCdiacDfffdDphBnfDpcpDtBceBjBdBbeBxqlfBucEofDudBeJ
   WcBEXxYJrJXtIdgnehyceca2cbcEdBiOarCldCbBplBldnufjcscdfccacFedacDpdDpef2dfdcegcgpc, 2.0
   CCvqcmvaDMyCtcBgiBaffcacuegcaFQoaUiaCATxQNrEIFzb12DSYpbDSYpHLXh, 2.1 MJsaDGOua, 3.0 TidBfhdrEoeBy
   aleDkiuaEnaea3caBfanaCpanaBrbddDpbGbaHtcDvbgaqaBrecncBdeBaCcBwCFibcrexcicadgeaffcachtcOkaBsayciac
   ccodaBxBhcecbcgedhzQhgcCkcacddgcacddBmcacddBecacddgcacddgcgcwcBecacddgcBmcshBbBkDgnYfkBceDcFoDoej
   xocjhDjjBpCWcazfDscBzbDibCvaEaiKkaEsacBdFjbRqhBiaDjbPjJvCCfzcDknIfBblCjceaNqxWnJTdBFEhBSuerdpclcc
   caBGSdaBVwc, 3.1 BMybDQQdBfBXxBecdnBaHaBldBlCZDrJllBmeGxVbDgcCscbdadbddclcacdcbcCmcddhcgcBbcdceca
   egcMzfLdfBxPDxCLEsBETeUvBPCQuaBfDr, 3.2 UyaLraumEbbBdaFsbCgb2dbBypNnbMkaDNibCHkmcgmwktnmcccbDIyah
   efaieoaClbBzgDfoGnlJjnEvaBfBzKztFwjDlhxbDnldjIpnDnBbfpJxTrBZocDkbjbDraJhp2DeoBRDjbranaeaBGJbCgBJe
   aepCcbBtaJcb, 4.0 UzatcEqbCmqDdhgcFweTxdkiCncFubqaBucBecQvaHdaCqacaFhaDhcoaCqaCiaFahHmbEFoatjKdBc
   elflfaeBpdeEeBfBDpEdBCqbIxaZkbLraKrbEnhpbBRbnCRobByaBsbDbdGmdDwbBgaJTpClCOQwaCwbQylczcscbcodnBjEs
   gcfBseiWfBdcaFfbBnDbdjBGxfdacBrcbeadaCYUjDiNzaBTKDbJf, 4.1 VvkKteGedJnbGpaBjcCqataChfJiBdUiaDdaSu
   aBwaBMobLkbcaKha2CmaBoa3BgaqaBoaybBgzCGdBphzhjfbBhBbdbBGnDjZibcgByeBedCcaDdaqaYvkWbaDybtkgpKlgBGi
   fJdBucBuBiEcpBslCbkarwkg7cgBixfbBJvpGtaBPIuvCTpwJaBrBFEbEbBFrjBFbCwUoBjfnCItdcbghcccBafcfijiCXPwC
   rBRbb, 5.0 WgnLocNaaBrfrdGlaTyCgOvbcbBHjbobFIkCxfBsWmgCabBCvdDqbCcaXclBBnaKrdBGkggdMfmidBULkdgbLb
   CdBKOnzgaIRhBHuFqDuodCOGjrBQvb, 5.1 BHwddbDkaHcaFlpItemeBheLrrTebIpaBkaHzaBeb2EfaBbbjbvhHiahaBebn
   fegSybDuaecDaagadaicffBbClfbDBfaBByBqelCtCdeoeByMuBbHadDnfNtaFkaDraCcdBYbawjedKfaBgdBFgefBoeeKvcc
   cffNrBfzddsBDlaGhtBPPphBZpLnvBfdrjBbFcedEcEheEzCqklBnDfmaGfCckndjddBFSvcBHqlCbBtFbBceBwCKezgaCXSk
   aLRrBrfDv, 5.2 BYqbBCdBtdoHmaDaahaBkbEzaCFqdHmdHheCreDffTtaYhiVpCrGzbBvaCsCkcBcdkhjhnVbBiKhaBAvcF
   wcCdaXjaBAsbBecfjcscafxDkaBNieKtaobEegMiaBOdlBPLthBXlBvQbDjMbjGlBbDxBceCzckfbEzBbfCozeIrBtdjQOlwf
   BwNBccFGdvciHfbMnBfEzCbeBcdBaghEzCuUqBeTuCnLVrBPeCTNekgBedamacadaeaeejaiaBaacbdalddaEiaqBhpiCQLkG
   Do, 6.0 BYsbJpaClaSnBbdaImbuahbBceTnfQsarauaWcdCwbBIpbDEoBzjdTpaZphBdaBFkkBCdauacdBeafbBdaBkacafc
   kbCbczapapbCDlapaBPpcBSEobLobcbpjDdaBDvf2dfkgcgBEMupHRjCzfBdBHEfVwBALcbYMhodndocoDdackcacb2ccghcg
   cjhicadbcjfbcjCyzcbBwiwbGtBgqfcCretnBkcewqqCkcacGzcdeCjtxFsecpcc3cacccfddcaddclfkBxCrChElCUQnIn,
   6.1 CCtaEnaZsackCeBaTeaBMsbSuagaBwcEBccnfJxhBsdECracaBYrbCaagaCfbHvjBRAfaCNohBkaJjbxaDabBCpwBEAab
   FUvCdhbCRpyijhCacnCjCuijBTvCdjjBHKpCqmBurqBVWjdcBacbcadacjcd2cahafa2cacccbcada4cacbcaddcg2cdcacjc
   qgccecqCbbYjbBLtdHharaea3caeahbfacbfa, 6.2 MKga, 6.3 CIeaJYwd, 7.0 BIlaQjhDqbEpaZsamfCzaEraiaYqaC
   aaCzaEyaIvjDKshVdbPmoVybJeoBBicBFrgBDuaBQjclzdBfdBhelchXvgBTOwfJnlmcdbCsaSvBeEwdGvBvfbBFIwgBHebua
   MiBbBkaBxBqPaBnjBzmaFpLykvlhJpCkjiRxBfBhBmflFiridngBVkaIbBmDjanahtmrcBqElCggjicchdbdvcgcbcedidbdc
   kaggdgeeKiCtjjGlCbdrCdCqmjWlDenaRhCeDFjBpHvlgaBALgBecjfbDtBddflCrljcgcugsBEMbEcgmeiijdhQKzHodpCZx
   aBhvwbUnlkaCtaxlBmagdglsgCuacaHbafbCmbfgBercBocDhCtboBvCtjrmedFlDgBslfCdjjhBnjBd, 8.0
   DHrbBvaUoaNpaKbaCMwadfEVpaHwbDYfdBRWwiCOvaJhaBjfMnbXndnDbBFFrbEBhscbgeHhbdpdBtYrByoByifBVedpeGfgc
   acdcockDjaDcaYktLfzeofpERqaIxHnLQrWkCAWmkCIaZbqecoJHecDbbDceBlhJwaCyeJkbFkaWeiEaeCiaCUCmINp, 9.0
   DHuhxoBJqaHzafccgycFSaiOhaCHcdDXdbBTZmaKtaBHQebBEwBjfBjFApaRiDl2caTvmCCyicBscnlBceBfdvcnBFMwaBgJB
   ouBDaBGFmgcqdgcbceDJaCwgjfbDDcrFnaBFzaBqaLpbBicVbfchjadlclfoBnm, 10.0 DEmkPmbJtfTtaChbFYxaJvdBBia
   BGaaCZbaYdeBCnaBPXouBLPjcIQrCtjBzdwceXigcbcBreacbcijjBFGqaYHlKyDePfYAffBRqbBjbUaluajhcbBaatmBnfCf
   wDCPeLBk, 11.0 CAyaBoaDzaUgcIeaLnaEqaPiaEyaENsaBOiBqdcFRncxyfoWqeBCjaBPYieCYiajbMnbBKVdbtaBAuBnjj
   RnBnjBpOiaEpcThaLfaBAyaIwChXmaBBffcbcBkcbcfijLzyBEAqDmJPjeBCJvtExgJLxCpBSdaCFaaImdOjcBdeddeacdzko
   jibBlyDtn, 12.0 EStaUha2dacffaiaibdaoaFKiaFPvaCcaWuaBTZnfdeBJsbBMBhwBRlaXdaBCqhdBtdkGebBZnBxoaHQv
   iWJlffaBwiDnbJCxfPRdcsdSArBsendjfbOfCfgaCKaaBKoCiBPfaCBhaBlaIwlLecBwaByakaBqfeblfehdcBxDfBddfcgco
   f, 12.1 TIda, 13.0 DIcjZeaQpaEvaFAkbGJvaBAvcBHpeKPjjBFDhmCYtdBrbCcaBFwdBGQraEWyBpccdbJvBbOqaFfbZb
   agbBTngdadhcbcBdcbdlkjCKlaBEJsambKFySoBriBLWvcDqcCkaBYvbBkbQubDnaDyafbBrbhcBeaGnapdqsigkcogBqFqcC
   cBmjCMSkgBHTrHHy, 14.0 CIfaWxBecbhhwatkBHqaBhaEyaDWiaiakaJgaBAonEwaBxbYmaBBiaEIpaBwaTgkBRAucCYjbp
   bcacezcBFTeaOspEyaBvbCVhkcocgcbckcocgcbRkfcBpciCXyzIxfCzaCGtaFfgBHqpHWzDuWDyDacjBAExdcgcbLddLIcBt
   dwkElVebEYwBeBHyBeBZegcdcbcoFQlcKnaPdaDfaGtbBtdldjcschhjgCNCqbGEwd, 15.0 EXnaShaDTAlcBGacDIdjBNbq
   cBoeBbHXeakBcBVHlaBjaMRbtERifKcCjBiaBPxBpGUdaFwcfeDmaZscqbBlcmccapblbnapbCTHpaBIWtGFf, 15.1
   SEmdTcaKEIrXx, 16.0 DGpaHChbBwaKgbCWzcFFfbBSQwcncBJOmBzCTxBleBcjbLvcCeaBSmjcadacBlcjcadacdcjcbjbB
   CwtBVxBhpjBHhaHZaFXqKZuCfEOlCfLYkaXWjJphQtITpBqfaHCdjfbRoagaBvaiawadakaIsBk"

def age? (edition : String) : Option CodeSet :=
  (ageTable.lookup edition).map fun words =>
    .unionOf ((words :: (ageTable.takeWhile (·.1 != edition)).map (·.2)).map fun w => .ofChars w.flatten)

/-- The code points that have a meaning, without those that never stand for a character. -/
def assigned : CodeSet :=
  (.unionOf [.surrogates, (age? "16.0").getD .empty] : CodeSet).diff (.ofText "DSDcBfUhb16DSYpb")

end Awk.Text.Unicode
