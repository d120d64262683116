import Awk.Program.Document
import Awk.Proofs.Document.Values

/-!
# Programs read back

A program that is kept as a text is the same program when it is loaded: every instruction with all that belongs
to it, what guards rules, missing bodies, functions, constants, names and the digest.  Numbers in it have to have
room in the words that the format gives them.  A number that is not finite is kept as nothing, so that the
program cannot be loaded again.
-/

namespace Awk

open Document

/-! ## What has room -/

/-- A number of a constant or a variable, or a count, that has room. -/
abbrev IndexFits (i : Nat) : Prop := i < Number.twoPow indexBits

abbrev OffsetFits (offset : Int) : Prop := -Number.twoPow 31 ≤ offset ∧ offset ≤ Number.twoPow 31 - 1

abbrev AmountFits (amount : Int) : Prop := -128 ≤ amount ∧ amount ≤ 127

def ScalarRef.InRange : ScalarRef → Prop
  | global i | «local» i => IndexFits i
  | special _ => True

def ArrayRef.InRange : ArrayRef → Prop
  | global i | «local» i => IndexFits i

def Cell.InRange : Cell → Prop
  | scalar r => r.InRange
  | field => True
  | element a => a.InRange

/-- All numbers of an instruction have room. -/
def Op.InRange : Op → Prop
  | num i | str i | regex i | indexMulti i | concatMulti i | nulls i | fieldInt i => IndexFits i
  | load c | store c | aug _ c => c.InRange
  | incr amount c => AmountFits amount ∧ c.InRange
  | member a | delete a | deleteAll a | callLengthArray a | arrayArg a | callSplit a _ => a.InRange
  | jump offset | branch _ offset => OffsetFits offset
  | forIn var a length => var.InRange ∧ a.InRange ∧ IndexFits length
  | callBuiltin _ n | output _ n _ => IndexFits n
  | callUser f n | callNative f n => IndexFits f ∧ IndexFits n
  | getline _ target => ∀ c ∈ target, c.InRange
  | _ => True

def Code.InRange (code : Code) : Prop := ∀ op ∈ code, op.InRange

def Guard.InRange : Guard → Prop
  | all => True
  | expr code => Code.InRange code
  | range start stop => Code.InRange start ∧ Code.InRange stop

structure CompiledRule.InRange (r : CompiledRule) : Prop where
  guard : r.guard.InRange
  body : ∀ code ∈ r.body, Code.InRange code

structure CompiledFunction.InRange (f : CompiledFunction) : Prop where
  scalarCount : f.scalarCount < Number.twoPow sizeBits
  arrayCount : f.arrayCount < Number.twoPow sizeBits
  body : Code.InRange f.body

/-- All numbers of a program, but for its constants, have room in the format. -/
structure Program.InRange (p : Program) : Prop where
  begin : ∀ code ∈ p.begin, Code.InRange code
  rules : ∀ r ∈ p.rules, r.InRange
  final : ∀ code ∈ p.final, Code.InRange code
  functions : ∀ f ∈ p.functions, f.InRange

/-! ## Names -/

variable {α : Type} {amount : Int} {c : Cell} {name : String} {d : Document} {op : Op}

/-- An alternative comes out of its name, if no two alternatives have the same name. -/
lemma oneOf?_ofText {name : α → String} {all : List α} (hnames : (all.map name).Nodup) {x : α} (hx : x ∈ all) :
    oneOf? name all (ofText (name x)) = some x := by
  change all.find? (name · == name x) = some x
  cases hy : all.find? (name · == name x) with
  | none => simpa using List.find?_eq_none.mp hy x hx
  | some y =>
    have hname : name y = name x := by simpa using List.find?_some hy
    rw [List.inj_on_of_nodup_map hnames (List.mem_of_find?_eq_some hy) hx hname]

lemma Special.ofDocument?_toDocument (v : Special) : Special.ofDocument? v.toDocument = some v :=
  oneOf?_ofText (by decide) (by cases v <;> decide)

lemma Arith.ofDocument?_documentName (op : Arith) : Arith.ofDocument? (ofText op.documentName) = some op :=
  oneOf?_ofText (by decide) (by cases op <;> decide)

lemma Builtin.ofDocument?_documentName (f : Builtin) : Builtin.ofDocument? (ofText f.documentName) = some f :=
  oneOf?_ofText (by decide) (by cases f <;> decide)

lemma destination?_destinationName (dest : Option RedirectKind) :
    destination? (ofText (destinationName dest)) = some dest := by
  refine oneOf?_ofText (by decide) ?_
  cases dest with
  | none => decide
  | some kind => cases kind <;> decide

lemma GetlineSource.ofDocument?_documentName (source : GetlineSource) :
    GetlineSource.ofDocument? (ofText source.documentName) = some source :=
  oneOf?_ofText (by decide) (by cases source <;> decide)

/-! ## Variables -/

lemma index?_ofNat {i : Nat} (h : IndexFits i) : index? (ofNat i) = some i := nat?_ofNat h

lemma offset?_ofInt {offset : Int} (h : OffsetFits offset) : offset? (ofInt offset) = some offset := int?_ofInt h

lemma amount?_ofInt (h : AmountFits amount) : amount? (ofInt amount) = some amount := int?_ofInt h

lemma ScalarRef.ofDocument?_toDocument {r : ScalarRef} (h : r.InRange) :
    ScalarRef.ofDocument? r.toDocument = some r := by
  cases r with
  | global i | «local» i => exact congrArg (Option.map _) (index?_ofNat h)
  | special v => exact congrArg (Option.map _) (Special.ofDocument?_toDocument v)

lemma ArrayRef.ofDocument?_toDocument {a : ArrayRef} (h : a.InRange) :
    ArrayRef.ofDocument? a.toDocument = some a := by
  cases a with
  | global i | «local» i => exact congrArg (Option.map _) (index?_ofNat h)

/-! ## Structures of few fields -/

/-- What the values of two fields make comes out. -/
lemma pair?_ofFields {β γ : Type} {make : α → β → γ} {name₁ name₂ : String} {first? : Document → Option α}
    {second? : Document → Option β} {d₁ d₂ : Document} {a : α} {b : β} (h : name₁ ≠ name₂)
    (ha : first? d₁ = some a) (hb : second? d₂ = some b) :
    pair? make name₁ first? name₂ second? (ofFields [(name₁, d₁), (name₂, d₂)]) = some (make a b) := by
  have hfields : (ofFields [(name₁, d₁), (name₂, d₂)]).fields? [name₁, name₂] = some [d₁, d₂] :=
    fields?_ofFields (by simpa using h)
  simp [pair?, hfields, ha, hb]

/-! ## Cells -/

def cellKindNames : List String := ["Global", "Local", "Special", "Field", "ArrayGlobal", "ArrayLocal"]

lemma Cell.kindName_mem (c : Cell) : c.kindName ∈ cellKindNames := by
  match c with
  | .scalar (.global _) | .scalar (.local _) | .scalar (.special _) | .field | .element (.global _)
  | .element (.local _) => simp [cellKindNames, Cell.kindName, ScalarRef.kindName, ArrayRef.kindName]

lemma behind?_append (word kind : String) : behind? word (word ++ kind) = some kind := by
  have hrest : (word.toList ++ kind.toList).drop word.length = kind.toList := by
    rw [← String.length_toList, List.drop_left]
  simp [behind?, hrest]

lemma cellKind?_entry (hc : c.InRange) (h : c.entry = some (name, d)) :
    ∃ cell?, cellKind? c.kindName = some (name, cell?) ∧ cell? d = some c := by
  match c, hc, h with
  | .scalar (.global i), hc, rfl | .scalar (.local i), hc, rfl => exact ⟨_, rfl, by rw [index?_ofNat hc]; rfl⟩
  | .scalar (.special v), hc, rfl => exact ⟨_, rfl, by rw [Special.ofDocument?_toDocument]; rfl⟩
  | .element (.global i), hc, rfl | .element (.local i), hc, rfl => exact ⟨_, rfl, by rw [index?_ofNat hc]; rfl⟩

lemma cellOnly?_payload (op : Cell → Op) (hc : c.InRange) (hd : c.payload none = some d) :
    cellOnly? op c.kindName d = some (op c) := by
  cases hentry : c.entry with
  | none => simp [Cell.payload, hentry] at hd
  | some e =>
    obtain ⟨name, d'⟩ := e
    obtain rfl : d' = d := by simpa [Cell.payload, hentry] using hd
    obtain ⟨cell?, hkind, hcell⟩ := cellKind?_entry hc hentry
    simp [cellOnly?, hkind, hcell]

/-- An instruction that works on a cell with something else comes out. -/
lemma cellWith?_payload (op : α → Cell → Op) {field : String} {value? : Document → Option α} {a : α} {da : Document}
    (ha : value? da = some a) (hfield : field ≠ "index" ∧ field ≠ "var") (hc : c.InRange)
    (hd : c.payload (some (field, da)) = some d) : cellWith? op field value? c.kindName d = some (op a c) := by
  cases hentry : c.entry with
  | none =>
    obtain rfl : c = .field := by
      match c, hentry with
      | .field, _ => rfl
    obtain rfl : da = d := by simpa [Cell.payload, Cell.entry] using hd
    rw [cellWith?, if_pos (show Cell.field.kindName = "Field" from rfl), ha]
    rfl
  | some e =>
    obtain ⟨name, d'⟩ := e
    obtain rfl : ofFields [(field, da), (name, d')] = d := by simpa [Cell.payload, hentry] using hd
    obtain ⟨cell?, hkind, hcell⟩ := cellKind?_entry hc hentry
    have hne : c.kindName ≠ "Field" ∧ field ≠ name := by
      match c, hentry with
      | .scalar (.global i), rfl | .scalar (.local i), rfl | .element (.global i), rfl | .element (.local i), rfl =>
        exact ⟨by simp [Cell.kindName, ScalarRef.kindName, ArrayRef.kindName], hfield.1⟩
      | .scalar (.special v), rfl => exact ⟨by simp [Cell.kindName, ScalarRef.kindName], hfield.2⟩
    rw [cellWith?, if_neg hne.1, hkind]
    exact pair?_ofFields hne.2 ha hcell

/-! ## Instructions -/

lemma Op.ofDocument?_bare (h : op ∈ Op.bare) : Op.ofDocument? (ofText op.name) = some op := by
  revert op
  decide

lemma Op.ofDocument?_payload (hpayload : op.payload = some d) (hd : d ≠ .null)
    (h : (Op.ofTag? op.name d).or (Op.ofCell? op.name d) = some op) : Op.ofDocument? op.toDocument = some op := by
  have hbare : (ofVariant op.name d).bareVariant? = none := by
    cases d with
    | null => exact absurd rfl hd
    | _ => rfl
  rw [Op.toDocument, hpayload, Op.ofDocument?, oneOf?, hbare]
  exact h

lemma Op.ofDocument?_tag (hpayload : op.payload = some d) (hd : d ≠ .null) (h : Op.ofTag? op.name d = some op) :
    Op.ofDocument? op.toDocument = some op :=
  Op.ofDocument?_payload hpayload hd (by rw [h]; rfl)

lemma Op.ofDocument?_cell (hpayload : op.payload = some d) (hd : d ≠ .null) (htag : Op.ofTag? op.name d = none)
    (h : Op.ofCell? op.name d = some op) : Op.ofDocument? op.toDocument = some op :=
  Op.ofDocument?_payload hpayload hd (by rw [htag, h]; rfl)

lemma Op.ofCell?_load (c : Cell) (d : Document) : Op.ofCell? (Op.load c).name d = cellOnly? .load c.kindName d := by
  have hwords : ∀ kind ∈ cellKindNames,
      behind? "Assign" kind = none ∧ behind? "Incr" kind = none ∧ behind? "AugAssign" kind = none := by
    decide
  obtain ⟨hassign, hincr, haug⟩ := hwords c.kindName c.kindName_mem
  rw [Op.name, Op.ofCell?, hassign, hincr, haug]

lemma Op.ofCell?_store (c : Cell) (d : Document) :
    Op.ofCell? (Op.store c).name d = cellOnly? .store c.kindName d := by
  rw [Op.name, Op.ofCell?, behind?_append]

lemma Op.ofCell?_incr (amount : Int) (c : Cell) (d : Document) :
    Op.ofCell? (Op.incr amount c).name d = cellWith? .incr "amount" amount? c.kindName d := by
  have hwords : ∀ kind ∈ cellKindNames, behind? "Assign" ("Incr" ++ kind) = none := by
    decide
  rw [Op.name, Op.ofCell?, hwords c.kindName c.kindName_mem, behind?_append]

lemma Op.ofCell?_aug (op : Arith) (c : Cell) (d : Document) :
    Op.ofCell? (Op.aug op c).name d = cellWith? .aug "op" Arith.ofDocument? c.kindName d := by
  have hwords : ∀ kind ∈ cellKindNames,
      behind? "Assign" ("AugAssign" ++ kind) = none ∧ behind? "Incr" ("AugAssign" ++ kind) = none := by
    decide
  obtain ⟨hassign, hincr⟩ := hwords c.kindName c.kindName_mem
  rw [Op.name, Op.ofCell?, hassign, hincr, behind?_append]

lemma Op.ofDocument?_load (hc : c.InRange) : Op.ofDocument? (Op.load c).toDocument = some (.load c) := by
  match c with
  | .field => exact Op.ofDocument?_bare (by decide)
  | .scalar (.global i) | .scalar (.local i) | .scalar (.special v) | .element (.global i) | .element (.local i) =>
    exact Op.ofDocument?_cell rfl nofun rfl ((Op.ofCell?_load ..).trans (cellOnly?_payload .load hc rfl))

lemma Op.ofDocument?_store (hc : c.InRange) : Op.ofDocument? (Op.store c).toDocument = some (.store c) := by
  match c with
  | .field => exact Op.ofDocument?_bare (by decide)
  | .scalar (.global i) | .scalar (.local i) | .scalar (.special v) | .element (.global i) | .element (.local i) =>
    exact Op.ofDocument?_cell rfl nofun rfl ((Op.ofCell?_store ..).trans (cellOnly?_payload .store hc rfl))

lemma Op.ofDocument?_incr (ha : AmountFits amount) (hc : c.InRange) :
    Op.ofDocument? (Op.incr amount c).toDocument = some (.incr amount c) := by
  have hcell {d : Document} (hd : c.payload (some ("amount", ofInt amount)) = some d) :
      Op.ofCell? (Op.incr amount c).name d = some (.incr amount c) :=
    (Op.ofCell?_incr ..).trans (cellWith?_payload .incr (amount?_ofInt ha) (by decide) hc hd)
  obtain (_ | _ | _) | _ | _ | _ := c <;> exact Op.ofDocument?_cell rfl nofun rfl (hcell rfl)

lemma Op.ofDocument?_aug (op : Arith) (hc : c.InRange) :
    Op.ofDocument? (Op.aug op c).toDocument = some (.aug op c) := by
  have hcell {d : Document} (hd : c.payload (some ("op", ofText op.documentName)) = some d) :
      Op.ofCell? (Op.aug op c).name d = some (.aug op c) :=
    (Op.ofCell?_aug ..).trans (cellWith?_payload .aug (Arith.ofDocument?_documentName op) (by decide) hc hd)
  obtain (_ | _ | _) | _ | _ | _ := c <;> exact Op.ofDocument?_cell rfl nofun rfl (hcell rfl)

/-- An instruction comes out of its document. -/
theorem Op.ofDocument?_toDocument {op : Op} (h : op.InRange) : Op.ofDocument? op.toDocument = some op := by
  cases op with
  | dupe | drop | swap | rote | concat | not | minus | plus | boolean | next | nextFile | exit | exitStatus | «return»
    | returnNull | breakForIn => exact Op.ofDocument?_bare (by decide)
  | arith op => cases op <;> exact Op.ofDocument?_bare (by decide)
  | compare c => cases c <;> exact Op.ofDocument?_bare (by decide)
  | «match» negated => cases negated <;> exact Op.ofDocument?_bare (by decide)
  | num i | str i | regex i | indexMulti i | concatMulti i | nulls i | fieldInt i =>
    exact Op.ofDocument?_tag rfl nofun (congrArg (Option.map _) (index?_ofNat h))
  | member a =>
    cases a <;> exact Op.ofDocument?_tag rfl nofun (congrArg (Option.map _) (index?_ofNat h))
  | delete a | deleteAll a | callLengthArray a | arrayArg a =>
    exact Op.ofDocument?_tag rfl nofun (congrArg (Option.map _) (ArrayRef.ofDocument?_toDocument h))
  | jump offset => exact Op.ofDocument?_tag rfl nofun (congrArg (Option.map _) (offset?_ofInt h))
  | branch t offset =>
    cases t with
    | truth expected =>
      cases expected <;> exact Op.ofDocument?_tag rfl nofun (congrArg (Option.map _) (offset?_ofInt h))
    | compare c => cases c <;> exact Op.ofDocument?_tag rfl nofun (congrArg (Option.map _) (offset?_ofInt h))
  | load c => exact Op.ofDocument?_load h
  | store c => exact Op.ofDocument?_store h
  | incr amount c => exact Op.ofDocument?_incr h.1 h.2
  | aug op c => exact Op.ofDocument?_aug op h
  | forIn var a length =>
    have hfields : (ofFields [("var", var.toDocument), ("array", a.toDocument), ("body_len", ofNat length)]).fields?
        ["var", "array", "body_len"] = some [var.toDocument, a.toDocument, ofNat length] := fields?_ofFields (by simp)
    refine Op.ofDocument?_tag rfl nofun ?_
    simp [Op.name, Op.ofTag?, hfields, ScalarRef.ofDocument?_toDocument h.1, ArrayRef.ofDocument?_toDocument h.2.1,
      index?_ofNat h.2.2]
  | callBuiltin f n =>
    exact Op.ofDocument?_tag rfl nofun
      (pair?_ofFields (by decide) (Builtin.ofDocument?_documentName f) (index?_ofNat h))
  | callSplit a sep =>
    exact Op.ofDocument?_tag rfl nofun (pair?_ofFields (by decide) (ArrayRef.ofDocument?_toDocument h) rfl)
  | callSub global => exact Op.ofDocument?_tag rfl nofun rfl
  | callUser f n | callNative f n =>
    exact Op.ofDocument?_tag rfl nofun (pair?_ofFields (by decide) (index?_ofNat h.1) (index?_ofNat h.2))
  | output formatted n dest =>
    cases formatted <;>
    exact Op.ofDocument?_tag rfl nofun
      (pair?_ofFields (by decide) (index?_ofNat h) (destination?_destinationName dest))
  | getline source target =>
    have hsource := GetlineSource.ofDocument?_documentName source
    match target with
    | none | some .field => exact Op.ofDocument?_tag rfl nofun (congrArg (Option.map _) hsource)
    | some (.scalar r) =>
      exact Op.ofDocument?_tag rfl nofun
        (pair?_ofFields (by decide) hsource (ScalarRef.ofDocument?_toDocument (h _ rfl)))
    | some (.element a) =>
      exact Op.ofDocument?_tag rfl nofun
        (pair?_ofFields (by decide) hsource (ArrayRef.ofDocument?_toDocument (h _ rfl)))

/-! ## Programs -/

lemma array?_ofList {f : α → Document} {g : Document → Option α} {xs : Array α} (h : ∀ x ∈ xs, g (f x) = some x) :
    array? g (ofList f xs.toList) = some xs := by
  rw [array?, list?_ofList fun x hx => h x (Array.mem_def.mpr hx)]
  rfl

theorem Code.ofDocument?_toDocument {code : Code} (h : Code.InRange code) :
    Code.ofDocument? (Code.toDocument code) = some code :=
  array?_ofList fun op hop => Op.ofDocument?_toDocument (h op hop)

lemma Guard.ofDocument?_toDocument {guard : Guard} (h : guard.InRange) :
    Guard.ofDocument? guard.toDocument = some guard := by
  cases guard with
  | all => rfl
  | expr code => exact congrArg (Option.map Guard.expr) (Code.ofDocument?_toDocument h)
  | range start stop =>
    change (do return Guard.range (← Code.ofDocument? start.toDocument) (← Code.ofDocument? stop.toDocument)) = _
    rw [Code.ofDocument?_toDocument h.1, Code.ofDocument?_toDocument h.2]
    rfl

/-- A body comes out, also a missing one: code is never kept as nothing. -/
lemma body?_toDocument {body : Option Code} (h : ∀ code ∈ body, Code.InRange code) :
    body? (body.elim .null Code.toDocument) = some body := by
  cases body with
  | none => rfl
  | some code => exact congrArg (Option.map some) (Code.ofDocument?_toDocument (h code rfl))

lemma CompiledRule.ofDocument?_toDocument {r : CompiledRule} (h : r.InRange) :
    CompiledRule.ofDocument? r.toDocument = some r := by
  have hfields : r.toDocument.fieldsOrNone? ["pattern", "body"] =
      some [some r.guard.toDocument, some (r.body.elim .null Code.toDocument)] := fieldsOrNone?_ofFields (by simp)
  simp [CompiledRule.ofDocument?, hfields, Guard.ofDocument?_toDocument h.guard, body?_toDocument h.body]

lemma CompiledFunction.ofDocument?_toDocument {f : CompiledFunction} (h : f.InRange) :
    CompiledFunction.ofDocument? f.toDocument = some f := by
  have hfields : f.toDocument.fields? ["name", "params", "arrays", "num_scalars", "num_arrays", "body"] =
      some [ofText f.name, ofList ofText f.params, ofList .bool f.arrays, ofNat f.scalarCount, ofNat f.arrayCount,
        Code.toDocument f.body] := fields?_ofFields (by simp)
  have hparams : (ofList ofText f.params).list? text? = some f.params := list?_ofList fun _ _ => rfl
  have harrays : (ofList .bool f.arrays).list? bool? = some f.arrays := list?_ofList fun _ _ => rfl
  simp [CompiledFunction.ofDocument?, hfields, hparams, harrays, nat?_ofNat h.scalarCount, nat?_ofNat h.arrayCount,
    Code.ofDocument?_toDocument h.body, ofText, text?]

lemma Program.fields?_toDocument (p : Program) :
    p.toDocument.fields? ["begin", "actions", "end", "functions", "nums", "strs", "regexes", "scalar_names",
      "array_names", "native_names", "source_hash"] =
    some [ofList Code.toDocument p.begin.toList, ofList CompiledRule.toDocument p.rules.toList,
      ofList Code.toDocument p.final.toList, ofList CompiledFunction.toDocument p.functions.toList,
      ofList ofFloat p.nums.toList, ofList ofText p.strs.toList, ofList ofText p.regexes.toList,
      ofList ofText p.scalarNames.toList, ofList ofText p.arrayNames.toList, ofList ofText p.nativeNames.toList,
      ofText p.sourceHash] :=
  fields?_ofFields (by simp)

/-- A program whose numbers read back comes out of its document. -/
theorem Program.ofDocument?_toDocument {p : Program} (h : p.InRange)
    (hnums : ∀ x ∈ p.nums, float? (ofFloat x) = some x) : Program.ofDocument? p.toDocument = some p := by
  have htexts (texts : Array String) : array? text? (ofList ofText texts.toList) = some texts :=
    array?_ofList fun _ _ => rfl
  have hbegin := array?_ofList fun code hcode => Code.ofDocument?_toDocument (h.begin code hcode)
  have hrules := array?_ofList fun r hr => CompiledRule.ofDocument?_toDocument (h.rules r hr)
  have hfinal := array?_ofList fun code hcode => Code.ofDocument?_toDocument (h.final code hcode)
  have hfunctions := array?_ofList fun f hf => CompiledFunction.ofDocument?_toDocument (h.functions f hf)
  -- the parts are read one after the other
  have hread {α β : Type} {x : Option α} {f : α → Option β} {a : α} {b : β} (hx : x = some a) (hf : f a = some b) :
      x >>= f = some b := Option.bind_eq_some_iff.mpr ⟨a, hx, hf⟩
  exact hread (Program.fields?_toDocument p) <| hread hbegin <| hread hrules <| hread hfinal <| hread hfunctions <|
    hread (array?_ofList hnums) <| hread (htexts _) <| hread (htexts _) <| hread (htexts _) <| hread (htexts _) <|
    hread (htexts _) rfl

/-- A program with a constant that is kept as nothing does not come out. -/
lemma Program.ofDocument?_eq_none {p : Program} {x : Float} (hx : x ∈ p.nums) (hnull : ofFloat x = .null) :
    Program.ofDocument? p.toDocument = none := by
  have hnums : array? float? (ofList ofFloat p.nums.toList) = none := by
    rw [array?, list?_eq_none (Array.mem_def.mp hx) (by rw [hnull]; rfl)]
    rfl
  rw [Program.ofDocument?, Program.fields?_toDocument, Option.bind_eq_bind, Option.bind_some]
  refine Option.bind_eq_none_iff.mpr fun begin _ => Option.bind_eq_none_iff.mpr fun rules _ =>
    Option.bind_eq_none_iff.mpr fun final _ => Option.bind_eq_none_iff.mpr fun functions _ => ?_
  exact congrArg (Option.bind · _) hnums

/-! ## Texts -/

@[simp] lemma ScalarRef.wellFormed_toDocument (r : ScalarRef) : r.toDocument.WellFormed := by
  cases r <;> simp [ScalarRef.toDocument, Special.toDocument]

@[simp] lemma ArrayRef.wellFormed_toDocument (a : ArrayRef) : a.toDocument.WellFormed := by
  cases a <;> simp [ArrayRef.toDocument]

lemma Cell.wellFormed_entry (h : c.entry = some (name, d)) : d.WellFormed := by
  match c, h with
  | .scalar (.global _), rfl | .scalar (.local _), rfl | .element (.global _), rfl | .element (.local _), rfl =>
    exact wellFormed_ofNat _
  | .scalar (.special _), rfl => exact wellFormed_ofText _

lemma Cell.wellFormed_payload {other : Option (String × Document)} (ho : ∀ f ∈ other, f.2.WellFormed)
    (h : c.payload other = some d) : d.WellFormed := by
  cases other with
  | none =>
    cases hentry : c.entry with
    | none => simp [Cell.payload, hentry] at h
    | some e =>
      obtain rfl : e.2 = d := by simpa [Cell.payload, hentry] using h
      exact Cell.wellFormed_entry hentry
  | some f =>
    cases hentry : c.entry with
    | none =>
      obtain rfl : f.2 = d := by simpa [Cell.payload, hentry] using h
      exact ho f rfl
    | some e =>
      obtain rfl : ofFields [f, e] = d := by simpa [Cell.payload, hentry] using h
      simpa using ⟨ho f rfl, Cell.wellFormed_entry hentry⟩

lemma Op.wellFormed_payload {op : Op} {d : Document} (h : op.payload = some d) : d.WellFormed := by
  cases op with
  | load c | store c | incr amount c | aug op c => exact Cell.wellFormed_payload (by simp) h
  | member a =>
    cases a <;>
    · cases h
      simp
  | getline source target =>
    match target, h with
    | none, rfl | some .field, rfl | some (.scalar _), rfl | some (.element _), rfl => simp
  | _ =>
    cases h
    try simp

lemma Op.wellFormed_toDocument (op : Op) : op.toDocument.WellFormed := by
  cases h : op.payload with
  | none => simp [Op.toDocument, h]
  | some d => simpa [Op.toDocument, h] using Op.wellFormed_payload h

@[simp] lemma Code.wellFormed_toDocument (code : Code) : (Code.toDocument code).WellFormed := by
  simp [Code.toDocument, Op.wellFormed_toDocument]

lemma CompiledRule.wellFormed_toDocument (r : CompiledRule) : r.toDocument.WellFormed := by
  have hguard : r.guard.toDocument.WellFormed := by
    cases r.guard <;> simp [Guard.toDocument]
  have hbody : (r.body.elim .null Code.toDocument).WellFormed := by
    cases r.body <;> simp
  simp [CompiledRule.toDocument, hguard, hbody]

lemma CompiledFunction.wellFormed_toDocument (f : CompiledFunction) : f.toDocument.WellFormed := by
  simp [CompiledFunction.toDocument]

/-- A number that reads back is written as a number of the format, one that is not finite as nothing. -/
lemma wellFormed_ofFloat {x : Float} (h : ∀ n, Numeral.ofFloat? x = some n → n.toFloat? = some x) :
    (ofFloat x).WellFormed := by
  cases hn : Numeral.ofFloat? x with
  | none => simp [ofFloat, hn]
  | some n =>
    rw [ofFloat, hn]
    exact Numeral.wellFormed_ofFloat hn (h n hn)

lemma Program.wellFormed_toDocument {p : Program}
    (h : ∀ x ∈ p.nums, ∀ n, Numeral.ofFloat? x = some n → n.toFloat? = some x) : p.toDocument.WellFormed := by
  have hnums : ∀ x ∈ p.nums, (ofFloat x).WellFormed := fun x hx => wellFormed_ofFloat (h x hx)
  simpa [Program.toDocument, CompiledRule.wellFormed_toDocument, CompiledFunction.wellFormed_toDocument] using hnums

/-- A program whose constants are finite and read back is the same program when its text is loaded.  One with a
constant that is not finite is kept in a text that cannot be loaded. -/
theorem Program.load?_emit {p : Program} (hp : p.InRange)
    (hread : ∀ x ∈ p.nums, ∀ n, Numeral.ofFloat? x = some n → n.toFloat? = some x) :
    ((∀ x ∈ p.nums, x.isFinite = true) → Program.load? p.emit = some p) ∧
      ((∃ x ∈ p.nums, x.isFinite = false) → Program.load? p.emit = none) := by
  have hload : Program.load? p.emit = Program.ofDocument? p.toDocument := by
    rw [Program.load?, Program.emit, parse?_render (Program.wellFormed_toDocument hread)]
    rfl
  have hsome (x : Float) : (Numeral.ofFloat? x).isSome = x.isFinite := by
    rw [Numeral.ofFloat?, Option.isSome_map, Number.Binary.isSome_ofFloat?]
  constructor
  · intro hfinite
    rw [hload]
    refine Program.ofDocument?_toDocument hp fun x hx => ?_
    obtain ⟨n, hn⟩ := Option.isSome_iff_exists.mp ((hsome x).trans (hfinite x hx))
    simpa [ofFloat, hn, float?] using hread x hx n hn
  · rintro ⟨x, hx, hnot⟩
    have hnone : Numeral.ofFloat? x = none := by
      rw [← Option.not_isSome_iff_eq_none, hsome, hnot]
      exact Bool.false_ne_true
    rw [hload]
    exact Program.ofDocument?_eq_none hx (by rw [ofFloat, hnone]; rfl)

/-- A program with constants of all kinds, a rule without a body and a function. -/
def sampleProgram : Program where
  begin := #[#[.num 0, .str 0, .output false 2 (some .append)]]
  rules := #[⟨.range #[.num 1] #[.regex 0], none⟩, ⟨.all, some #[.getline .file (some (.element (.local 1))), .drop]⟩]
  final := #[#[.fieldInt 2, .incr (-1) (.scalar (.special .nr)), .branch (.compare .less) (-3)]]
  functions := #[⟨"f", ["a", "x"], [true, false], 1, 1, #[.forIn (.local 0) (.local 0) 1, .breakForIn]⟩]
  nums := #[0.1, -2.5e-10]
  strs := #["tab\t, quote\", nul\x00 and é"]
  regexes := #["a|b"]
  scalarNames := #["n"]
  sourceHash := "0f"

lemma sampleProgram_inRange (nums : Array Float) : Program.InRange { sampleProgram with nums } where
  begin := by simp [sampleProgram, Code.InRange, Op.InRange, Number.twoPow, indexBits]
  rules := by
    have hfirst : (⟨.range #[.num 1] #[.regex 0], none⟩ : CompiledRule).InRange :=
      ⟨by simp [Guard.InRange, Code.InRange, Op.InRange, Number.twoPow, indexBits], by simp⟩
    have hsecond : (⟨.all, some #[.getline .file (some (.element (.local 1))), .drop]⟩ : CompiledRule).InRange :=
      ⟨trivial, by simp [Code.InRange, Op.InRange, Cell.InRange, ArrayRef.InRange, Number.twoPow, indexBits]⟩
    simpa [sampleProgram] using ⟨hfirst, hsecond⟩
  final := by
    simp [sampleProgram, Code.InRange, Op.InRange, Cell.InRange, ScalarRef.InRange, AmountFits, OffsetFits,
      Number.twoPow, indexBits]
  functions := by
    have hbody : Code.InRange #[.forIn (.local 0) (.local 0) 1, .breakForIn] := by
      simp [Code.InRange, Op.InRange, ScalarRef.InRange, ArrayRef.InRange, Number.twoPow, indexBits]
    simpa [sampleProgram] using ⟨by decide, by decide, hbody⟩

theorem load?_emit_sampleProgram :
    Program.load? sampleProgram.emit = some sampleProgram ∧
      Program.load? { sampleProgram with nums := #[1 / 0] }.emit = none := by
  have hread : ∀ x ∈ sampleProgram.nums, (Numeral.ofFloat? x).bind Numeral.toFloat? = some x := by decide +kernel
  constructor
  · refine (Program.load?_emit (sampleProgram_inRange _) fun x hx n hn => ?_).1 (by decide +kernel)
    simpa [hn] using hread x hx
  · refine (Program.load?_emit (sampleProgram_inRange _) fun x hx n hn => ?_).2 (by decide +kernel)
    obtain rfl : x = 1 / 0 := by simpa using hx
    have hnone : Numeral.ofFloat? (1 / 0) = none := by decide +kernel
    rw [hnone] at hn
    cases hn

end Awk
