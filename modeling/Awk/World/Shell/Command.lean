/-!
# Commands of the shell

A command line is made of commands, and a command of words.  Words have parts that are put in when the
command runs, and among those are other commands.
-/

namespace Awk.Shell

/-- What is made of the value of a variable.  The flag `empty` tells that an empty value counts as none,
`longest` that as much as possible is taken away. -/
inductive Change where
  | asIs
  | length
  /-- A text in its place if there is none. -/
  | orElse (empty : Bool)
  /-- The same, and the variable gets that text. -/
  | orAssign (empty : Bool)
  /-- A message if there is none, and the shell ends. -/
  | orFail (empty : Bool)
  | ifSet (empty : Bool)
  | withoutStart (longest : Bool)
  | withoutEnd (longest : Bool)
  /-- Nothing that is known; the shell ends. -/
  | unknown
deriving DecidableEq, Repr

mutual

/-- A part of a word.  What is not quoted can be divided into several words. -/
inductive Part where
  | text (s : String) (quoted : Bool)
  | value (name : String) (change : Change) (word : List Part) (quoted : Bool)
  | output (c : Command) (quoted : Bool)
  | number (expr : List Part) (quoted : Bool)

/-- What a stream is connected with. -/
inductive Redirection where
  | input (stream : Nat) (file : List Part)
  | output (stream : Nat) (file : List Part) (append : Bool)
  | copy (stream : Nat) (other : List Part)
  | document (stream : Nat) (number : Nat)

inductive Command where
  | nothing
  | simple (assignments : List (String × List Part)) (words : List (List Part))
      (redirections : List Redirection)
  | redirected (c : Command) (redirections : List Redirection)
  /-- Commands of which each reads what the one before it writes. -/
  | pipeline (stages : List Command)
  /-- A command whose status is turned round. -/
  | negated (c : Command)
  | both (a b : Command)
  | either (a b : Command)
  | sequence (a b : Command)
  | background (c : Command)
  | subshell (c : Command)
  | choice (condition yes no : Command)
  | loop (whileFails : Bool) (condition body : Command)
  | each (name : String) (words : Option (List (List Part))) (body : Command)
  | select (word : List Part) (arms : List (List (List Part) × Command))
  | define (name : String) (body : Command)

end

abbrev Word := List Part

/-- Adds text behind parts, the last of which comes first. -/
def Part.addText (before : List Part) (s : String) (quoted : Bool) : List Part :=
  match before with
  | .text t q :: rest => if q = quoted then .text (t ++ s) q :: rest else .text s quoted :: before
  | _ => .text s quoted :: before

/-- The text of a word that is taken as it stands, and whether any of it is quoted. -/
def Word.plain (w : Word) : String × Bool :=
  w.foldl (fun (s, quoted) part =>
    match part with
    | .text t q => (s ++ t, quoted || q)
    | .value name _ _ _ => (s ++ "$" ++ name, quoted)
    | _ => (s, quoted)) ("", false)

def Command.before (a b : Command) : Command :=
  match b with
  | .nothing => a
  | _ => .sequence a b

def Command.withRedirections (c : Command) : List Redirection → Command
  | [] => c
  | rs => .redirected c rs

end Awk.Shell
