import Flatsheet.Shell.Reader

/-!
# `Flatsheet.Shell.Grammar` — the commands of a shell script

A script is read command by command: a command that breaks the rules is noticed only after those on the
lines before it have been run.

## Contents

* `readList`: commands up to a word or an operator that ends them
* `readNext`: the commands on the next line
* `readText`: a text that is no command
-/

namespace Flatsheet.Shell

open Text

/-! ## Parts of commands -/

/-- The builtins after which no function can be named. -/
def specialBuiltins : List Text :=
  [".", ":", "break", "continue", "eval", "exec", "exit", "export", "local", "readonly", "return",
    "set", "shift", "times", "trap", "unset"].map String.toList

/-- The token ends a list of commands. -/
def Token.endsList : Token → Bool
  | .finish => true
  | .operator t => t = ")".toList || t = ";;".toList
  | .reserved t =>
    ["\x7d", "do", "done", "elif", "else", "esac", "fi", "then"].any fun w => t = w.toList
  | _ => false

/-- The parts of a simple command. -/
structure Parts where
  assignments : List Word := []
  words : List Word := []
  redirections : List Redirection := []

/-- A redirection, whose token has been read. -/
def readRedirection (commands : Bool → Scan Command) (n channel : Nat) (opening : Opening) :
    Scan Redirection := do
  match ← readTokenAs commands { stops := opening matches .document _ } n with
  | .word w =>
    match opening with
    | .file mode => return .file channel mode w
    | .duplicate => return .duplicate channel w
    | .document dropTabs =>
      let r ← get
      let a : Announcement := ⟨r.number, literal w, dropTabs, w.any fun p => (Piece.bare? p).isNone⟩
      set { r with number := r.number + 1, announced := r.announced ++ [a] }
      return .document channel r.number
  | _ => unexpected

/-- The redirections behind a compound command. -/
def readRedirections (commands : Bool → Scan Command) : Nat → Scan (List Redirection)
  | 0 => return []
  | n + 1 => do
    match ← readTokenAs commands .command n with
    | .redirection channel opening =>
      let r ← readRedirection commands n channel opening
      return r :: (← readRedirections commands n)
    | _ => push; return []

/-- The words of a loop. The token behind them has been read. -/
def readWords (commands : Bool → Scan Command) : Nat → Scan (List Word)
  | 0 => return []
  | n + 1 => do
    match ← readTokenAs commands {} n with
    | .word w => return w :: (← readWords commands n)
    | _ => return []

/-- The patterns of a branch, of which the first token has been read. The token behind them has been read
too. -/
def readPatterns (commands : Bool → Scan Command) : Nat → Token → Scan (List Word)
  | 0, _ => return []
  | n + 1, t => do
    let w : Word := match t with
      | .word w => w
      | .reserved t => t.map (.byte · false)
      | _ => []
    let next ← readTokenAs commands {} n
    if next.isOperator "|" then return w :: (← readPatterns commands n (← readTokenAs commands {} n))
    else return [w]

/-- The reserved word that has to come next. -/
def demand (commands : Bool → Scan Command) (n : Nat) (role : Role) (w : String) : Scan Unit := do
  if (← readTokenAs commands role n).isReserved w then return ()
  else unexpected (some ("\"" ++ w ++ "\""))

/-- A command as the body of a redirection or of the background. -/
def Command.inBackground (line : Nat) : Command → Command
  | .redirected line body rs => .background line body rs
  | c => .background line c []

/-- Commands, latest first, as one. -/
def Command.ofLatest : List Command → Command
  | [c] => c
  | cs => .sequence cs.reverse

/-- A compound command with redirections behind it. Redirections behind braces take the place of those of
a subshell that is all that the braces hold. -/
def Command.redirect (line : Nat) (rs : List Redirection) : Command → Command
  | .subshell line body _ => .subshell line body rs
  | c => .redirected line c rs

/-! ## Commands -/

/-- Where a list of commands stands. -/
inductive ListPlace
  /-- On a line of the script, which ends it. -/
  | line
  /-- Between words of a compound command. There has to be a command. -/
  | inside
  /-- In a branch or a substitution, where there need not be a command. -/
  | apart
deriving DecidableEq, Repr

mutual

/-- A list of commands, after those that have been read already, latest first. -/
def readList : Nat → ListPlace → List Command → Scan (List Command)
  | 0, _, _ => wrong "Too many nested commands".toList
  | n + 1, place, before => do
    let commands := readSubstitution n
    let role := if place = .line then Role.command else Role.next
    let t ← readTokenAs commands role n
    match t with
    | .lineEnd =>
      readDocuments commands n
      return before
    | .finish =>
      readDocuments commands n
      push
      return before
    | _ => do
      push
      if (place = .apart || (place = .inside && !before.isEmpty)) && t.endsList then
        return before
      else
        let line := (← get).line
        let c ← readAndOr n
        let after ← readTokenAs commands {} n
        let list := (if after.isOperator "&" then c.inBackground line else c) :: before
        match after with
        | .finish =>
          readDocuments commands n
          push
          return list
        | .lineEnd =>
          push
          readList n place list
        | after =>
          if after.isOperator ";" || after.isOperator "&" then readList n place list
          else if place = .line then unexpected
          else do
            push
            return list

/-- The commands of a substitution. In the newer form a parenthesis ends them. -/
def readSubstitution : Nat → Bool → Scan Command
  | 0, _ => wrong "Too many nested commands".toList
  | n + 1, old => do
    let announced := (← get).announced
    modify fun r => { r with announced := [] }
    let list ← readList n .apart []
    if !old then
      let t ← readTokenAs (readSubstitution n) {} n
      if !t.isOperator ")" then unexpected (some "\")\"")
    let r ← get
    set { r with rest := [] }
    readDocuments (readSubstitution n) n
    modify fun now => { now with rest := r.rest, line := r.line, announced, pushed := false }
    return .ofLatest list

/-- Commands of which each depends on the success of those before it. -/
def readAndOr : Nat → Scan Command
  | 0 => wrong "Too many nested commands".toList
  | n + 1 => do
    let c ← readPipeline n
    readAndOrRest n c

/-- The rest of such commands. -/
def readAndOrRest : Nat → Command → Scan Command
  | 0, c => return c
  | n + 1, c => do
    let t ← readTokenAs (readSubstitution n) {} n
    if t.isOperator "&&" then
      let d ← readPipelineAs n .next
      readAndOrRest n (.both c d)
    else if t.isOperator "||" then
      let d ← readPipelineAs n .next
      readAndOrRest n (.either c d)
    else do
      push
      return c

/-- Commands connected by pipes. -/
def readPipeline : Nat → Scan Command
  | 0 => wrong "Too many nested commands".toList
  | n + 1 => readPipelineAs n {}

/-- Commands connected by pipes, of which the first token has a role. -/
def readPipelineAs : Nat → Role → Scan Command
  | 0, _ => wrong "Too many nested commands".toList
  | n + 1, role => do
    let t ← readTokenAs (readSubstitution n) role n
    let negated := t.isReserved "!"
    if !negated then push
    let c ← readCommand n (if negated then .command else {})
    let more ← readPipelineRest n
    let p := if more.isEmpty then c else .pipe (c :: more)
    return if negated then .negated p else p

/-- The commands behind the first pipe. -/
def readPipelineRest : Nat → Scan (List Command)
  | 0 => return []
  | n + 1 => do
    let t ← readTokenAs (readSubstitution n) {} n
    if t.isOperator "|" then
      let c ← readCommand n .next
      return c :: (← readPipelineRest n)
    else do
      push
      return []

/-- A command, of which the first token has a role. -/
def readCommand : Nat → Role → Scan Command
  | 0, _ => wrong "Too many nested commands".toList
  | n + 1, role => do
    let commands := readSubstitution n
    let line := (← get).line
    let redirect (c : Command) : Scan Command := do
      let rs ← readRedirections commands n
      return if rs.isEmpty then c else c.redirect line rs
    let list : Scan Command := return .ofLatest (← readList n .inside [])
    let t ← readTokenAs commands role n
    match t with
    | .word _ => push; readSimple n
    | .redirection .. => push; readSimple n
    | .operator _ =>
      if t.isOperator "(" then
        let c ← list
        if !(← readTokenAs commands {} n).isOperator ")" then unexpected (some "\")\"")
        let rs ← readRedirections commands n
        return .subshell line c rs
      else unexpected
    | .reserved w =>
      match String.ofList w with
      | "\x7b" => do
        let c ← list
        demand commands n {} "\x7d"
        redirect c
      | "if" => do redirect (← readChoice n)
      | "while" => do redirect (← readLoop n false)
      | "until" => do redirect (← readLoop n true)
      | "for" => do redirect (← readEach n line)
      | "case" => do redirect (← readCase n line)
      | _ => unexpected
    | _ => unexpected

/-- A choice behind its first word, up to its last one. -/
def readChoice : Nat → Scan Command
  | 0 => wrong "Too many nested commands".toList
  | n + 1 => do
    let commands := readSubstitution n
    let list : Scan Command := return .ofLatest (← readList n .inside [])
    let condition ← list
    demand commands n {} "then"
    let yes ← list
    let t ← readTokenAs commands {} n
    if t.isReserved "elif" then return .choice condition yes (some (← readChoice n))
    else if t.isReserved "else" then
      let no ← list
      demand commands n {} "fi"
      return .choice condition yes (some no)
    else do
      push
      demand commands n {} "fi"
      return .choice condition yes none

/-- A loop behind its first word. -/
def readLoop : Nat → Bool → Scan Command
  | 0, _ => wrong "Too many nested commands".toList
  | n + 1, inverted => do
    let commands := readSubstitution n
    let condition ← readList n .inside []
    demand commands n {} "do"
    let body ← readList n .inside []
    demand commands n {} "done"
    return .loop inverted (.ofLatest condition) (.ofLatest body)

/-- A loop over words behind its first word. -/
def readEach : Nat → Nat → Scan Command
  | 0, _ => wrong "Too many nested commands".toList
  | n + 1, line => do
    let commands := readSubstitution n
    let t ← readTokenAs commands {} n
    let name := match t with
      | .word w => (plain? w).getD []
      | _ => []
    if !isName name then wrong "Bad for loop variable".toList
    let t ← readTokenAs commands .next n
    let words ←
      if t.isReserved "in" then do
        let ws ← readWords commands n
        let after := (← get).token
        if !(after matches .lineEnd) && !after.isOperator ";" then unexpected
        pure ws
      else do
        if !t.isOperator ";" then push
        pure [[.parameter ['@'] .asIs false [] true]]
    demand commands n .next "do"
    let body ← readList n .inside []
    demand commands n {} "done"
    return .each line name words (.ofLatest body)

/-- A choice between branches behind its first word. -/
def readCase : Nat → Nat → Scan Command
  | 0, _ => wrong "Too many nested commands".toList
  | n + 1, line => do
    let commands := readSubstitution n
    match ← readTokenAs commands {} n with
    | .word subject =>
      demand commands n .next "in"
      return .branches line subject (← readBranches n)
    | _ => unexpected (some "word")

/-- The branches up to the last word. -/
def readBranches : Nat → Scan (List (List Word × Option Command))
  | 0 => wrong "Too many nested commands".toList
  | n + 1 => do
    let commands := readSubstitution n
    let role : Role := { reserves := true, skipsLines := true }
    let t ← readTokenAs commands role n
    if t.isReserved "esac" then return []
    else
      let t ← if t.isOperator "(" then readTokenAs commands {} n else pure t
      let patterns ← readPatterns commands n t
      if !((← get).token.isOperator ")") then unexpected (some "\")\"")
      let body ← readList n .apart []
      let branch := (patterns, if body.isEmpty then none else some (.ofLatest body))
      let t ← readTokenAs commands role n
      if t.isReserved "esac" then return [branch]
      else if t.isOperator ";;" then return branch :: (← readBranches n)
      else unexpected (some "\";;\"")

/-- A simple command or the definition of a function. -/
def readSimple : Nat → Scan Command
  | 0 => wrong "Too many nested commands".toList
  | n + 1 => do
    let line := (← get).line
    readParts n line true {}

/-- The further parts of a simple command. Up to the first word that is no assignment, words can be
aliases. -/
def readParts : Nat → Nat → Bool → Parts → Scan Command
  | 0, _, _, _ => wrong "Too many nested commands".toList
  | n + 1, line, early, p => do
    let commands := readSubstitution n
    let stop : Scan Command := do
      push
      return .simple line p.assignments p.words p.redirections
    let t ← readTokenAs commands { aliases := early } n
    match t with
    | .word w =>
      if early && (assignment? w).isSome then
        readParts n line true { p with assignments := p.assignments ++ [w] }
      else readParts n line false { p with words := p.words ++ [w] }
    | .redirection channel opening =>
      let r ← readRedirection commands n channel opening
      readParts n line early { p with redirections := p.redirections ++ [r] }
    | _ =>
      match t.isOperator "(", p.words, p.assignments, p.redirections with
      | true, [w], [], [] =>
        if !(← readTokenAs commands {} n).isOperator ")" then unexpected (some "\")\"")
        let name := (plain? w).getD []
        if !isName name || specialBuiltins.contains name then wrong "Bad function name".toList
        return .define name (← readCommand n .next)
      | _, _, _, _ => stop

end

/-- What the next line of a script holds. -/
inductive NextLine
  | nothing
  | commands (list : List Command)
  | finish

/-- The commands on the next line of a script. -/
def readNext (n : Nat) : Scan NextLine := do
  modify fun r => { r with pushed := false, announced := [] }
  let list ← readList n .line []
  let r ← get
  if list.isEmpty then return if (r.token matches .finish) && r.pushed then .finish else .nothing
  else return .commands list.reverse

/-- How deeply the commands of a text can nest. -/
def Reader.depth (r : Reader) : Nat := 16 * r.rest.length + 64

/-- The pieces of a text in which quotes stand for themselves. -/
def readText (t : Text) : Except Fault Word :=
  let r : Reader := { rest := t }
  ((scanText (readSubstitution r.depth) .text r.depth).run r).map (·.1)

end Flatsheet.Shell
