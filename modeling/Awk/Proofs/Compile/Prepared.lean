import Awk.Proofs.Compile.Parts

/-!
# What compilation is prepared for

Compilation would go on where a jump stands outside all loops, where the text of a substitution cannot be stored, and
where `split` gets no array, but the code would be wrong.  The grammar gives no program with any of these.
-/

namespace Awk

open Compile

/-- An element of an array has an index. -/
def Place.Indexed : Place → Prop
  | .index _ es => es ≠ []
  | _ => True

/-- What is checked of an expression when it is read.  That assignments, steps and records go to variables, fields or
elements lies in their type; elements have an index, and the arguments of a builtin function suit it. -/
def Expr.Formed (e : Expr) : Prop :=
  (∀ p ∈ e.target?, p.Indexed) ∧
    match e with
    | .place p => p.Indexed
    | .member index _ => index ≠ []
    | .call f args extent => (Expr.call f args extent).CallFits ∧
      (f = .sub ∨ f = .gsub → ∀ text ∈ args[2]?, ∃ p, text = .place p)
    | _ => True

/-- The code of `split` ends with its own instruction, and that of a substitution by storing the text in a place. -/
def Expr.CompilesDirectly : Expr → Prop
  | .call f args extent => ∀ env pools pools' code,
    (exprCode env (.call f args extent)).value.run pools = .ok (code, pools') →
      (f = .split → ∃ a sep, code.getLast? = some (.callSplit a sep)) ∧
      (f = .sub ∨ f = .gsub → ∃ c, code.getLast? = some (.store c))
  | _ => True

/-- The code of a block has no jump left that a loop around it would have to decide. -/
def CompilesSettled (body : List Stmt) : Prop := ∀ env pools pools' pieces,
  (bodyCode env body).run pools = .ok (pieces, pools') → ∀ piece ∈ pieces, ∃ op, piece = .op op

/-! ## Expressions -/

lemma place_of_callMisuse {f : Builtin} {args : List Expr} (h : Reader.callMisuse f args = none) (hf : f = .sub ∨ f = .gsub)
    {text : Expr} (htext : (Reader.patternArgs f args)[2]? = some text) : ∃ p, text = .place p := by
  have hargs : args[2]? = some text := by
    rcases hf with rfl | rfl <;> simpa [Reader.patternArgs, Builtin.patternArg, List.getElem?_modify] using htext
  rw [Reader.callMisuse.eq_def] at h
  split at h
  · cases h
  · rename_i htakes
    obtain _ | ⟨x, _ | ⟨y, _ | ⟨z, _ | ⟨w, more⟩⟩⟩⟩ := args
    · cases hargs
    · cases hargs
    · cases hargs
    · cases hargs
      rcases hf with rfl | rfl <;> cases text <;> simp_all [Expr.place?]
    · rcases hf with rfl | rfl <;> simp [Builtin.takes, Builtin.minArgs, Builtin.maxArgs] at htakes

lemma Expr.Formed.compilesDirectly {e : Expr} (h : e.Formed) : e.CompilesDirectly := by
  cases e with
  | call f args extent =>
    intro env pools pools' code hrun
    have hcode : Gives (callCode env f args (exprCodes env args)) pools' code := gives_of_run hrun (.refl _)
    have hparts := gives_callCode h.2.1 (by rw [exprCodes_eq_map, List.length_map]) hcode
    generalize hcodes : exprCodes env args = codes at hparts
    cases hparts with
    | lengthArray _ _ => exact ⟨nofun, by simp⟩
    | @split _ _ _ _ _ rest _ _ a _ _ _ => exact ⟨fun _ => ⟨a, !rest.isEmpty, by simp⟩, by simp⟩
    | plain hf _ _ => exact ⟨fun hs => absurd hs hf.1, fun hs => (hs.elim hf.2.1 hf.2.2).elim⟩
    | subRecord hf _ _ _ => exact ⟨by rintro rfl; simp at hf, fun _ => ⟨.field, by simp [subCode]⟩⟩
    | sub hf _ _ _ hs =>
      obtain _ | ⟨x, _ | ⟨y, _ | ⟨z, more⟩⟩⟩ := args <;> cases hcodes
      obtain ⟨p, rfl⟩ := h.2.2 hf z rfl
      obtain ⟨key, cell, -, -, rfl⟩ := gives_store hs
      exact ⟨by rintro rfl; simp at hf, fun _ => ⟨cell, by simp [subCode, List.getLast?_cons]⟩⟩
  | _ => trivial

lemma grammatical_formed : Grammatical fun e => e.Formed ∧ e.CompilesDirectly := by
  suffices h : Grammatical Expr.Formed from
    ⟨fun hi => ⟨h.index hi, trivial⟩, fun hi => ⟨h.member hi, trivial⟩,
      fun hf extent => ⟨h.call hf extent, (h.call hf extent).compilesDirectly⟩,
      fun he ht => have hformed := h.other he fun p hp => (ht p hp).1
        ⟨hformed, hformed.compilesDirectly⟩⟩
  constructor
  case index => exact fun hi => ⟨nofun, hi⟩
  case member => exact fun hi => ⟨nofun, hi⟩
  case call => exact fun hf extent => ⟨nofun, callFits_of_callMisuse hf extent, fun hs _ ht => place_of_callMisuse hf hs ht⟩
  case other =>
    intro e he ht
    refine ⟨fun p hp => (ht p hp).2, ?_⟩
    cases e with
    | place p => cases p <;> trivial
    | _ => trivial

/-! ## Statements -/

namespace Compile

variable {env : Env} {pools : Pools} {pieces : List Piece}

lemma forall_mem_ops (code : List Op) : ∀ piece ∈ ops code, ∃ op, piece = .op op := by
  simp [ops]

mutual

/-- The jumps that are left in the code of a statement are those of the statement itself. -/
lemma stmt_settled : ∀ {st : Stmt} {pieces : List Piece}, st.escapes = false → Gives (stmtCode env st) pools pieces →
    ∀ piece ∈ pieces, ∃ op, piece = .op op
  | .breakLoop _, _, h, _ | .continueLoop _, _, h, _ => by cases h
  | .ifElse _ body none, _, h, hc => by
    cases gives_stmtCode hc with
    | ifThen _ hyes =>
      simpa [skip, ops, or_imp, forall_and] using body_settled (Bool.or_eq_false_iff.mp h).1 hyes
  | .ifElse _ body (some _), _, h, hc => by
    cases gives_stmtCode hc with
    | ifElse _ hyes hno =>
      obtain ⟨h, h'⟩ := Bool.or_eq_false_iff.mp h
      simpa [either, ops, or_imp, forall_and] using ⟨body_settled h hyes, body_settled h' hno⟩
  | .forLoop _ _ _ _, _, h, hc => by
    have hinit := (Bool.or_eq_false_iff.mp h).1
    cases gives_stmtCode hc with
    | forever hfirst _ _ => simpa [ops, or_imp, forall_and] using init_settled hinit hfirst
    | forLoop hfirst _ _ _ _ => simpa [skip, ops, or_imp, forall_and] using init_settled hinit hfirst
  | .whileLoop _ _, _, _, hc => by
    cases gives_stmtCode hc with
    | whileLoop _ _ _ => simp [skip, ops, or_imp, forall_and]
  | .block _, _, h, hc => body_settled h hc
  | .print _ _, _, _, hc | .printf _ _, _, _, hc | .expr _, _, _, hc | .forIn _ _ _, _, _, hc | .doWhile _ _, _, _, hc
  | .next _, _, _, hc | .nextFile _, _, _, hc | .exit _, _, _, hc | .returnValue _, _, _, hc | .delete _ _, _, _, hc => by
    cases gives_stmtCode hc <;> exact forall_mem_ops _

lemma init_settled : ∀ {st : Option Stmt} {pieces : List Piece}, escapesInit st = false → Gives (initCode env st) pools pieces →
    ∀ piece ∈ pieces, ∃ op, piece = .op op
  | none, _, _, hc => by rw [← gives_pure.mp hc]; exact nofun
  | some _, _, h, hc => stmt_settled h hc

lemma body_settled : ∀ {body : List Stmt} {pieces : List Piece}, escapesBody body = false → Gives (bodyCode env body) pools pieces →
    ∀ piece ∈ pieces, ∃ op, piece = .op op
  | [], _, _, hc => by rw [← gives_pure.mp hc]; exact nofun
  | _ :: _, _, h, hc => by
    obtain ⟨first, hfirst, rest, hrest, rfl⟩ := gives_map₂.mp hc
    obtain ⟨h, h'⟩ := Bool.or_eq_false_iff.mp h
    exact List.forall_mem_append.mpr ⟨stmt_settled h hfirst, body_settled h' hrest⟩

end

end Compile

/-- The grammar gives only programs that compilation is prepared for: every jump stands where it may, every expression
is formed as its code needs it, and no code has a jump or a call that is none. -/
theorem Script.ofTokens_prepared {tokens : List Token} {s : Script} (h : Script.ofTokens tokens = .ok s) :
    s.Read (fun e => e.Formed ∧ e.CompilesDirectly) ∧ s.Each (fun _ => CompilesSettled) fun _ => True := by
  have hsettled : ∀ {body}, ProperBody body → CompilesSettled body := fun hb _ _ _ _ hrun =>
    body_settled hb.bound (gives_of_run hrun (.refl _))
  have hproper := Script.ofTokens_proper h
  exact ⟨Script.ofTokens_read grammatical_formed h, fun body hb => hsettled (hproper.begin body hb),
    fun _ _ _ _ => trivial, fun r hr body hb => hsettled (hproper.bodies r hr body hb),
    fun body hb => hsettled (hproper.final body hb), fun f hf => hsettled (hproper.functions f hf)⟩

/-- A program with jumps, substitutions and elements. -/
def jumpingScript : String := "BEGIN \x7b
  while ((getline line[n++]) > 0) \x7b if (!((1, 2) in seen) && gsub(/a/, \"b\", $NF)) break; sub(/b/, \"c\") \x7d
\x7d
function last(s,  a) \x7b for (;;) return a[split(s, a)] \x7d
/x/ \x7b if (last($0)) next; sub(/x/, \"y\", line[1]) \x7d"

theorem jumpingScript_prepared : ∃ tokens s, Token.lex jumpingScript = .ok tokens ∧ Script.ofTokens tokens = .ok s ∧
    s.Read (fun e => e.Formed ∧ e.CompilesDirectly) ∧ s.Each (fun _ => CompilesSettled) fun _ => True := by
  have hsome : ((Token.lex jumpingScript).toOption.bind fun tokens =>
    (Script.ofTokens tokens).toOption).isSome = true := by decide +kernel
  cases hlex : Token.lex jumpingScript with
  | error e => simp [hlex, Except.toOption] at hsome
  | ok tokens =>
    cases hs : Script.ofTokens tokens with
    | error e => simp [hlex, hs, Except.toOption] at hsome
    | ok s => exact ⟨tokens, s, rfl, hs, Script.ofTokens_prepared hs⟩

end Awk
