import Awk.Compile.Stmt
import Awk.Resolution.Infer
import Awk.Script.StmtGrammar
import Awk.Text.Sha256

/-!
# Compiling programs

A program text is read to tokens, parsed and resolved, and its parts are compiled in the order BEGIN,
rules, END, functions, so that the pools hold the constants in that order.
-/

namespace Awk

/-- Why a text is no program: the step that fails, and why. -/
inductive SourceError where
  | lex (e : LexError)
  | parse (e : ParseError)
  | resolve (e : ResolveError)
  | compile (e : CompileError)

def SourceError.message : SourceError → String
  | lex e => e.message
  | parse e => e.message
  | resolve e => e.message
  | compile e => e.message

namespace Compile

def guardCode (env : Env) : RulePattern → Compile Guard
  | .all => return .all
  | .expr e => return .expr (← (exprCode env e).value).toArray
  | .range start stop => do
    let first ← (exprCode env start).value
    return .range first.toArray (← (exprCode env stop).value).toArray

def ruleCode (env : Env) (r : Rule) : Compile CompiledRule := do
  let guard ← guardCode env r.pattern
  match r.body with
  | none => return ⟨guard, none⟩
  | some body => return ⟨guard, some (← blockCode env body)⟩

def functionCode (r : Resolution) (f : Function) : Compile CompiledFunction := do
  match r.lookupFunc f.name with
  | none => .fail (.unresolved f.name)
  | some info =>
    let body ← blockCode ⟨r, some f.name⟩ f.body
    let arrayCount := info.arrays.count true
    return ⟨f.name, f.params, info.arrays, info.params.length - arrayCount, arrayCount, body⟩

def scriptCode (r : Resolution) : Compile Program := do
  let env : Env := ⟨r, none⟩
  let begin ← r.script.begin.mapM (blockCode env)
  let rules ← r.script.rules.mapM (ruleCode env)
  let final ← r.script.final.mapM (blockCode env)
  let functions ← r.script.functions.mapM (functionCode r)
  return { begin := begin.toArray, rules := rules.toArray, final := final.toArray,
           functions := functions.toArray }

end Compile

def Resolution.compile (r : Resolution) (source : String) : Except CompileError Program := do
  let (p, pools) ← (Compile.scriptCode r).run {}
  return { p with
    nums := pools.nums
    strs := pools.strs
    regexes := pools.regexes
    scalarNames := r.scalarNames.toArray
    arrayNames := r.arrayNames.toArray
    nativeNames := r.nativeNames.toArray
    sourceHash := "sha256:" ++ Sha256.hexDigest source }

def Resolution.ofSource (source : String) (natives : List NativeFunc) :
    Except SourceError Resolution := do
  let tokens ← (Token.lex source).mapError .lex
  let script ← (Script.ofTokens tokens).mapError .parse
  (Resolution.ofScript script natives).mapError .resolve

def Program.ofSource (source : String) (natives : List NativeFunc) : Except SourceError Program := do
  let r ← Resolution.ofSource source natives
  (r.compile source).mapError .compile

end Awk
