import Awk.Text.Unicode.Category

/-!
# Properties that follow from others

The properties that the Unicode standard puts together from general categories and other properties.
-/

namespace Awk.Text.Unicode

def derivedTable : CodeSet.Table := .ofText
  "XID_Continue =XIDC +ID_Continue BIgaRCjbCZEgfPrbEna7ca, XID_Start =XIDS +ID_Start BIgaEBpaEyaMVwb
   CZEgfPrbEna7caLcb, ID_Continue =IDC +ID_Start +Mn +Mc +Nd +Pc +Other_ID_Continue -Pattern_Syntax
   -Pattern_White_Space, ID_Start =IDS +Lu +Ll +Lt +Lm +Lo +Nl +Other_ID_Start -Pattern_Syntax
   -Pattern_White_Space, Grapheme_Base =Gr_Base +Lu +Ll +Lt +Lm +Lo +Mc +Nd +Nl +No +Pc +Pd +Ps +Pe
   +Pi +Pf +Po +Sm +Sc +Sk +So +Zs -Grapheme_Extend, Grapheme_Extend =Gr_Ext +Me +Mn
   +Other_Grapheme_Extend, Math +Sm +Other_Math, Alphabetic =Alpha +Uppercase +Lowercase +Lt +Lm +Lo
   +Nl +Other_Alphabetic, Cased +Uppercase +Lowercase +Lt, Uppercase =Upper +Lu +Other_Uppercase,
   Lowercase =Lower +Ll +Other_Lowercase, Case_Ignorable =CI +Mn +Me +Cf +Lm +Sk BnahamaEvaBBsaSeaFt
   aJXkbladaDGBcaCladaGwahama, Changes_When_Casemapped =CWCM +Changes_When_Lowercased
   +Changes_When_Uppercased, Changes_When_Casefolded =CWCF +Changes_When_Lowercased GzaBqaEcaCcaRmaE
   vaobebBabeaPmaFIvDhdfDFviUkbIvhjhjhlcdalcdaBrcdaCAVhDbBEAjgne, Changes_When_Titlecased =CWT
   +Changes_When_Uppercased -Lt Rka2daBnaFQlBqdc, Changes_When_Lowercased =CWL +Has_Lower
   LsaCLCoaeacaCXHky, Changes_When_Uppercased =CWU +Has_Upper +Lt MraGlaQaaBgaSdaJMteHaa3caDoacacbla
   cacblbdblccblacacbBZLoaeacaBFMxgneBRUqy"

def property? (name : String) : Option CodeSet := CodeSet.ofTable? category? derivedTable name

end Awk.Text.Unicode
