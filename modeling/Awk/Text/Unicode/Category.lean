import Awk.Text.Unicode.Property

/-!
# General categories

Every code point has one general category of the Unicode standard, named by two letters.  Other letters
(`Lo`) are what belongs to no other category of the table, and `Cn` is what is not assigned.  Surrogates
are no characters and belong to none.
-/

namespace Awk.Text.Unicode

/-- The code points of each general category, and the names of groups of categories. -/
def categoryTable : CodeSet.Table := .ofText
  "Mn =Nonspacing_Mark +Other_Alphabetic +Diacritic +Inherited -Mc -Lm -Sk -Po -Me CDmaXfaBwaBscEqan
   bKzaBVkaDJqbDiccaDArbBTxBzDGoaBVLhacaBLGqbBHcaMsaUcaFjaCFlaDxaJSqaWPgaBDBlaIFdcCYeCcfBxjapaxecoDW
   vdEQrz2hz, Lu =Uppercase_Letter +Has_Lower -Lt LsaZycLBiafaecdcdaeehaeaebdbcalbgaBbpBGhzBXPvaeaca
   CXHkyBMJgz2BbzBbacbdadbddchBbzBbbcddhcgBcbcdcecaegBcz5BbzBfy4BiyBia, Ll =Lowercase_Letter
   +Has_Upper -Lt MaaraCqaBdbpaeaByaBxatfBcadacadcdafagbcadbcgcbcadchecachdqFuaCxaBgaCyaNsaBnbIXcBrC
   mmdccpclJsecbcaGva3caDoacacblacacblbdblccblacacbKpaebeaBca2fadbjdBnpBGrzCWeadadeEbaBUIebCmhwahaBa
   aBgaBraBFqBicggiBEDsgneBRUqyBMJfzBbgcrBbzBbdcacgck8BbzBbBbBdycfBbycfBbycfBbycfBbycfcaCSzjcthf, Lt
   =Titlecase_Letter Rla2daBnaLFih2jhnaqaBwa, Lm =Modifier_Letter +Other_Lowercase +Extender
   GoanadaTrghjBdacaDjaBvaSraPgbKkbBlakaeaGfaGmaJwaFiaDmaETeaBzaBPcaCoccbBWtpBGrzDFyaHkaUeaBSFlfOwaF
   wiEbaBHJibFFvaBVhaLiaEnbTfcBVkaBEOebTrcBpbVfmYJhdcgcbSQreBKiaKaaBGvcfa, Mc =Spacing_Mark
   +Other_Grapheme_Extend -Cf DKtaCeadcjdcbBzbCibhbdbCdaChcCpaChcjacbCcbCjahbdbElacbecccCbcCkdCkbCha
   dacbBvapbCibgcccCcbCzbhgubMtbCmaGqbfahadbBablcdgwbdfdalcCRyaihcbNjddcfbcfIrbChacakacbjfFqaCgdCnaB
   fafbCmadccaCchjbGqawaCASibdaDlbBzpFnaBxaBxbfbdbEibdbzaBuacaEgadbgaJeb2cbcaBFScbGFhacaEyaBucfbEmaz
   bCiaBxckapaDqcebGrcBgbCiacd2dbwbDibqacbEacjbeaEebhacbcadaJfbhddaEkcjbcaEgacbEhacbfaKcckaJpecbiaca
   FncjdfaDhaBebClaPsapaEdaiadaIgefbcaNnbnaBxbjbYZbcFJhCc, Me =Enclosing_Mark BSqbIKraCIhdccBYOyc,
   Nd =Decimal_Number =Digit BwjCIpjFfjHrjPxj9EpjDtjEpjCtjKtjCtjCTrjBnjLpjEzjGljhjHbjDjjFfjhjCAEpjBA
   djBnjHrjxjDjjPrjBFMdjCCljDFzjhjBErjEzjCjjFpjKtjNfjEpjOljDzjhtCzjQhjDzjZnjDjjJnjCtjQhjYYhjDMdjDjjF
   fjUpjBKDzjECrBxDNdjQhjTjjJojBGwjHBbj, Nl =Letter_Number IRucDYuBiddFMtaBaipcBSYmjBIFhCaRtajaFfeME
   tEg, No =Other_Number GwbgadcDMsfOnfErcFegIkgsiQsjBPmtBRwjSnaCMwaefhjHrpBqaBBzChDbvYhBdCBiaBTddFj
   jBfhcoBhjBooBSMjfBHQoBsCodsbNeBaBldBZhhBagBoiCyexfGfbdpdBtCniCbbBfcCyeEbhzhBqgMtfNpBeGdjBrdEjgFft
   OqtBZybQpiBHosBGuuBCPrgBEtwBLYgtntEfyIBviBJuCgcccdCzBscoBLbm, Pc =Connector_Punctuation
   DraMBwbuaDGApbzcJga, Pd =Dash_Punctuation +Dash MGhaBoaqaPba, Ps =Open_Punctuation +Pe
   BobByacaBeacaFPddCUobDPmaeaBnbCdbpbYkdBebBPunDcbBgjPovCmdBhbBOvhzathQmjdhccCZRrbIibBdpdbrfGobByac
   aBeaca2cb, Pe =Close_Punctuation BpaCaaBgaFPeacaCUpaDReaCeaqaYlacaBfaBPva6caDdaBha4caPpa10caCnaca
   BiaBOwa3caBta3caQna4caea3cadbCZRraIkaBea7caeasa2caGpaCaaBga2da, Pi =Initial_Punctuation
   GpaLXladbdaBaaFFtacafadaqaea, Pf =Final_Punctuation HfaLWwaeaBdaFFtacafadaqaea, Po
   =Other_Punctuation +Terminal_Punctuation BibccdafaraBcaCragapbiaBTjfDtagaBtbvbdaDpdGcacaJaaClaMca
   FlaEraEsaPbanaOeaDnaGzdcdiaEjaCxefbEkdGqaXpaBSabBnbgadaUmbEzggbGtaeaGadHlhmaBGdbjdccji2dadchhcacj
   EUgacbEjaFobfcdadicbcadblddjeceicafaQraCgaHiaBSMqalaEmaOwbFbccaByaBxaDufedrbEvaFaaBFNebcbfaxavbdd
   tchacbFvbccdafaraBcaBpaPvcBRpaBLoaKnfdaBnaEpaCpaCCgbFcaCabDebtacaDsaPubEoboaEbaJrafcEtaBdmCzaOwaK
   gaGbaDpcdcDgaecDsjIiaDvbBraBBxkGuaGBabWLsbVqaLobMqaBOKfaEIuaBHfb, Sm =Math_Symbol
   +ID_Compat_Math_Start BrarcCkacaBuafaBmaBgaBDnaUicJYiaoaBococFkaBoehaCregbfa2daiaBgbdacaBgncdcvcI
   qBhbDnaBfyBpfScakaCdhEiaMzedBelpJxFaxCkfBfdJxBxudfDASraBFtaccGjarcCkacaFcahdFEgbDHJdb, Sc
   =Currency_Symbol BkaEwdBWkaEua2TfbiaJmaKeaWkaDQqaDIjBgBZHwaBGMmaEfaFzaImbebMCtdCVXfaDRla, Sk
   =Modifier_Symbol DqacaCuahafaeaUcdnnggcacqEoapbBXjaIUnaccmc2ocobGHpbBSVswkbEabBLpapbBEKlqBIiacaGh
   aDOLke, So =Other_Symbol GkadafacaBLqaKhbEybHzalaubJoaTwaOkaFbfcaFdaIaaBqaPccqaccdfva2caFehcfcbgd
   HqbBCzjBBwaBBvaGcBhNqjkiCCibcdcblacbhf3cafambpacbcaChbkedd2cbcgcBedbcacBeKjhftdgdDccBdBaBnhCtxkDe
   CzxHacicCbjEgcJnBtBrCnJvTtBvwbhBmdBfcEaIwfNubBvzcDknIfBbpfaobnawbhbMzbfjBhBlkarBemBdjaqBflBmqMhJT
   pClBGUjCcBHidlbcaWccBFJbpEyaBucSraeafbobMciCgqdccmeaBwBsCLvbWuaEStaDGohfqBCNjdgaBEUxaFVoJfrQtGbEl
   CjJllBmdChgcxbiBdfCiwCneaHfDiBTyTrCedBzhcncbCOvaEHxaFaaBBuBrfDvnodococBkyGeCfBcoBrfiibpfFzJqgBBzf
   qemeEofDqhlfaqlfCdjjhBnjBddlfbClNbnndmejgCdiodkhiiFqcDn, Zs =Space_Separator
   BgaEyaIHkaDPokBlaBwaFXxa, Zl =Line_Separator MEqa, Zp =Paragraph_Separator MEra, Cc =Control
   =Cntrl aBfDsBg, Cf =Format GraCAlfxaHlaByaOvbDdaFTkaDAreBbeByecjDGHkaJqcGJaaqaNKlpBZQvdHWyhBTKZna
   BfDr, Co =Private_Use DGVoJMdCAHXpDSYndDSYn, C =Other, Cn =Unassigned, L =Letter, LC
   =Cased_Letter, Lo =Other_Letter, M =Mark =Combining_Mark, N =Number, P =Punctuation =Punct, S
   =Symbol, Z =Separator"

/-- The code points of a general category given by its two letters. -/
def category? : String → Option CodeSet
  | "Cn" => some assigned.complement
  | "Lo" => some (assigned.diff (.unionOf (.surrogates :: categoryTable.map fun row =>
      (CodeSet.ofTable? basic? categoryTable row.1).getD .empty)))
  | name => CodeSet.ofTable? basic? categoryTable name

def categories (names : List String) : CodeSet := .unionOf (names.map fun name => (category? name).getD .empty)

end Awk.Text.Unicode
