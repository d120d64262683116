import Awk.Text.CodeSet

/-!
# Tables of upper and lower case

Runs of code points whose partner in the other case lies at a constant distance, as numbers in base 26:
`CnzBg` sends the 26 letters from the code point 65 on to those 32 further on.
-/

namespace Awk.Text.Unicode

/-- Code points `first`, `first + step`, … up to `last`, whose partner lies `distance` further on. -/
structure CaseRun where
  first : Nat
  last : Nat
  step : Nat
  distance : Int
deriving Repr

namespace CaseRun

def covers (r : CaseRun) (code : Nat) : Bool :=
  r.first ≤ code && code ≤ r.last && (code - r.first) % r.step == 0

def apply (r : CaseRun) (code : Nat) : Nat := ((code : Int) + r.distance).toNat

def inverse (r : CaseRun) : CaseRun := ⟨r.apply r.first, r.apply r.last, r.step, -r.distance⟩

/-- The part of a run that lies in a range, moved to the partners. -/
def image (r : CaseRun) (range : Nat × Nat) : List (Nat × Nat) :=
  let lo := max r.first range.1
  let hi := min r.last range.2
  if hi < lo then []
  else if r.step = 1 then [(r.apply lo, r.apply hi)]
  else
    let start := lo + (lo - r.first) % r.step
    (List.range ((hi + r.step - start) / r.step)).map fun k =>
      let code := r.apply (start + k * r.step)
      (code, code)

end CaseRun

/-- Reads runs, each written as the distance of its start from that of the run before, the distance of its end from
its start, and that of the partners.  A stroke stands for steps of two, a tilde for partners further back. -/
def readRuns (first : Nat) : List (List Char × Nat) → List CaseRun
  | (_, gap) :: (_, length) :: (signs, distance) :: rest =>
    { first := first + gap
      last := first + gap + length
      step := if signs.contains '/' then 2 else 1
      distance := if signs.contains '~' then -(distance : Int) else distance } :: readRuns (first + gap) rest
  | _ => []

def caseMap (text : String) : Array CaseRun := (readRuns 0 (CodeSet.readNumbers [] 0 text.toList)).toArray

/-- The code points that a table has partners for. -/
def caseSet (runs : Array CaseRun) : CodeSet :=
  .ofRanges (runs.toList.flatMap (·.inverse.image (0, CodeSet.lastCode)))

def lowerMap : Array CaseRun := caseMap
  "CnzBgExwBgygBgBoBu/bBye/bho/brBs/bBua~Erbe/biaIcbc/beaHybabcbHxcabdaDbbaHubaHvbabcaHxbaHzcaIdbaIb
  babeaIdbaIfcaIgbe/bgaIkbabcaIkdabcaIkbabcbIjcc/beaIlbabeabiacbabcacbabcacbq/btq/btacbc/bea~Dtba~Ce
  bBm/bBoa~Facq/byaPZfbabca~GhbaPZcdabca~HnbaCrbaCtbi/bLmc/bgabjaEmhaBmccBleaCmcbCldqBgsiBgBsaijw/bB
  ca~Cidabca~hbabdc~FadpDcqBfBgDcBg/bBqCa/bCcapbm/bpDq/bDtBlBwEIpBlKTkBnaKTkgaKTkBBvDbCFMuDcfiDGrabh
  Bq~ELsBtc~ELsMlFs/bGca~LGxcDq/bEah~iqf~iqh~iqh~iqf~irg/~iph~iBgh~iqh~iqh~iqb~icb~Cwca~jmd~Diea~jmb
  ~icb~Dwob~icb~Eica~hmb~Eycb~Ewca~jLma~LDdea~MKlba~MFuhaBcBupqBjabBFnzBaCTuBvBwDsabca~PXfba~FQsba~P
  Wpde/bga~PYqba~PXlba~PYtba~PYscabdabjb~PZzcDu/bEdc/bhabBTYkBs/bCmBa/bGgm/bqCi/bCtc/bea~CAGybi/bnab
  ca~CKOedc/bgs/bua~CKPgba~CKPrba~CKPnba~CKPdba~CKPgca~CKNiba~CKOgba~CKNlbaBJsbo/bqa~Bwba~CKPfba~CAI
  ybc/bea~CKQpbo/bqa~CKYzzabBHAizBgBVzBnBoGuBjBoHkBk/Bnbi/Bnmm/Bnqe/BniaBnCQdByCmIavBgEHkBfBgBGLcBfB
  gDsyBbBUIyBhBi"

/-- The upper case of code points that are not its lower case. -/
def strayMap : Array CaseRun := caseMap
  "GzaBCpEua~IyDaa~LoCsa~bda~bda~bBna~bNbaDgEva~Bfoa~Ckba~Cfea~Bvba~CcBaa~Diba~Dcea~DsJHra~JGoba~JGn
  ba~JGebb~JGcca~JGdba~JFwba~JDtbaCAEkUla~ChLfa~KRd"

def upperMap : Array CaseRun := strayMap ++ lowerMap.map .inverse

/-- Characters that differ in case only, those of each pair in one direction. -/
def foldMap : Array CaseRun := lowerMap ++ strayMap ++ caseMap "BJcaKShBgaKRrDPRhab"

/-- Code points whose upper case is more than one character.  A decimal number tells how many code points in a row
change their first character in the same way. -/
def upperWords : String :=
  "=IpDfDf=MrBAyDa=TcCwBEa=BJcBJlBDwBDp=BKiBJxBDwBDp=CClBZhCAk=LPeCuBFl=LPfDgBDw=LPgDjBDy=LPhDlBDy
  =LPiCnBBa=LWiBJxBEh=LWkBJxBEhBDo=LWmBJxBEhBDp=LWoBJxBEhBGc8=LYeLToBJl8=LYmLToBJl8=LYuLUuBJl
  8=LZcLUuBJl8=LZkLXgBJl8=LZsLXgBJl=MAcMAkBJl=MAdBJdBJl=MAeBIsBJl=MAgBJdBGc=MAhBJdBGcBJl=MAmBJdBJl
  =MAsMBaBJl=MAtBJjBJl=MAuBIvBJl=MAwBJjBGc=MAxBJjBGcBJl=MBcBJjBJl=MBiBJlBDwBDo=MBjBJlBDwBDp
  =MBmBJlBGc=MBnBJlBDwBGc=MByBJxBDwBDo=MBzBJxBDwBDp=MCaBJtBEh=MCcBJxBGc=MCdBJxBDwBGc=MCoMCwBJl
  =MCpBKbBJl=MCqBJbBJl=MCsBKbBGc=MCtBKbBGcBJl=MCyBKbBJl=DRBkCsCs=DRBlCsCv=DRBmCsCy=DRBnCsCsCv
  =DRBoCsCsCy=DRBpDfDg=DRBqDfDg=DRCdBZwBZy=DRCeBZwBZh=DRCfBZwBZn=DRCgCAgBZy=DRChBZwBZp"

end Awk.Text.Unicode
