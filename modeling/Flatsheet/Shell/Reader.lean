import Flatsheet.Shell.Word

/-!
# `Flatsheet.Shell.Reader` — the tokens of a shell script

A script is read byte by byte, since what a byte means depends on everything before it: quotes and braces
nest, a substitution contains commands, and the documents that a line announces start behind that line.
The reading of commands is left to the caller, who hands it over as an action.

## Contents

* `Reader`, `Fault`, `Scan`: the state of reading, and what can go wrong
* `Token`
* `scanWord`: a word, piece by piece
* `readDocuments`: the documents that have been announced
* `readTokenAs`: the next token, in the role that its place gives it
-/

namespace Flatsheet.Shell

open Text

/-! ## The state of reading -/

/-- The script breaks the rules at a line. -/
structure Fault where
  line : Nat
  message : Text

/-- What a redirection does, before its word is known. -/
inductive Opening
  | file (mode : OpenMode)
  | duplicate
  /-- A document follows, of which leading tabs are dropped if asked for. -/
  | document (dropTabs : Bool)
deriving DecidableEq, Repr

/-- A token. -/
inductive Token
  | finish
  | lineEnd
  | operator (t : Text)
  | redirection (channel : Nat) (opening : Opening)
  | word (w : Word)
  /-- A word with a meaning of its own. -/
  | reserved (t : Text)

instance : Inhabited Token := ⟨.finish⟩

/-- The name of a token in messages. -/
def Token.describe : Token → Text
  | finish => "end of file".toList
  | lineEnd => "newline".toList
  | operator t => '"' :: t ++ ['"']
  | redirection .. => "redirection".toList
  | word _ => "word".toList
  | reserved t => '"' :: t ++ ['"']

/-- The token is that operator. -/
def Token.isOperator (o : String) : Token → Bool
  | operator t => t = o.toList
  | _ => false

/-- The token is that reserved word. -/
def Token.isReserved (o : String) : Token → Bool
  | reserved t => t = o.toList
  | _ => false

/-- A document that has been announced. -/
structure Announcement where
  number : Nat
  /-- The line behind the last one. -/
  stop : Text
  dropTabs : Bool
  /-- Nothing in the document is replaced. -/
  verbatim : Bool

/-- The text of an alias is being read. -/
structure AliasUse where
  name : Text
  /-- The number of bytes behind the text. -/
  behind : Nat
  /-- The text ends with a blank. Then the word behind it can be an alias too. -/
  blank : Bool

/-- What is left to be read of a script, with what is known about it. -/
structure Reader where
  rest : Text
  line : Nat := 1
  /-- The token that was read last. -/
  token : Token := .lineEnd
  /-- That token is read again. -/
  pushed : Bool := false
  announced : List Announcement := []
  documents : List (Nat × Word) := []
  /-- The number of the next document. -/
  number : Nat := 0
  aliases : List (Text × Text) := []
  /-- The aliases whose text is being read. -/
  inUse : List AliasUse := []
  /-- The next word can be an alias, wherever it stands. -/
  again : Bool := false

/-- Reading changes the state or fails. -/
abbrev Scan := StateT Reader (Except Fault)

/-- The script breaks a rule at the current line. -/
def wrong {α : Type} (message : Text) : Scan α := do throw ⟨(← get).line, message⟩

/-! ## Bytes -/

/-- A text without joined line ends in front, and the number of its line. -/
def dropJoints : Text → Nat → Text × Nat
  | '\\' :: '\n' :: r, line => dropJoints r (line + 1)
  | t, line => (t, line)

/-- The next byte, which stays. -/
def peek : Scan (Option Char) := return (← get).rest.head?

/-- The next byte behind joined line ends, which stays. -/
def peekJoined : Scan (Option Char) := do
  let r ← get
  let (rest, line) := dropJoints r.rest r.line
  set { r with rest, line }
  return rest.head?

/-- The next byte is taken. -/
def skip : Scan Unit := modify fun r =>
  { r with rest := r.rest.tail, line := if r.rest.head? = some '\n' then r.line + 1 else r.line }

/-- The next byte is taken, but no line is counted. -/
def skipUncounted : Scan Unit := modify fun r => { r with rest := r.rest.tail }

/-- The bytes of a class in front are taken, behind joined line ends. -/
def takeJoined (p : Char → Bool) : Nat → Scan Text
  | 0 => return []
  | n + 1 => do
    match ← peekJoined with
    | some c => if p c then do skip; return c :: (← takeJoined p n) else return []
    | none => return []

/-- The next byte is taken if it is that one. -/
def accept (c : Char) : Scan Bool := do
  if (← peekJoined) = some c then do skip; return true else return false

/-! ## Pieces of words -/

/-- What a word consists of on the way: pieces, and brackets around the words inside of pieces. -/
inductive Sign
  | piece (p : Piece)
  | openValue (name : Text) (change : Change) (colon quoted : Bool)
  | openSum (quoted : Bool)
  | close

/-- A word in which quotes around all arguments have no borders, so that they are no word if there are no
arguments. -/
def withoutBorders : Word → Word
  | [] => []
  | .mark :: .parameter ['@'] .asIs false [] true :: .mark :: r =>
    .parameter ['@'] .asIs false [] true :: withoutBorders r
  | p :: r => p :: withoutBorders r

/-- The pieces that signs make, latest first, inside of brackets that are still open. -/
def nest : List Sign → List (Sign × Word) → Word → Word
  | [], _, w => withoutBorders w.reverse
  | .piece p :: r, outer, w => nest r outer (p :: w)
  | .close :: r, (.openValue name change colon quoted, before) :: outer, w =>
    nest r outer (.parameter name change colon (withoutBorders w.reverse) quoted :: before)
  | .close :: r, (.openSum quoted, before) :: outer, w =>
    nest r outer (.calculation w.reverse quoted :: before)
  | .close :: r, outer, w => nest r outer w
  | bracket :: r, outer, w => nest r ((bracket, w) :: outer) []

/-- What is being read. -/
inductive Place
  | bare
  | singleQuotes
  | doubleQuotes
  | calculation
deriving DecidableEq, Repr

/-- What has been opened around the current byte. -/
structure Frame where
  place : Place := .bare
  /-- A value stands in double quotes. -/
  doubled : Bool := false
  /-- The number of open braces. -/
  braces : Nat := 0
  /-- Those of them in double quotes. -/
  doubledBraces : Nat := 0
  /-- Double quotes have been opened inside of braces. -/
  inner : Bool := false
  /-- The frame ends with its last brace. -/
  own : Bool := false
  /-- The number of open parentheses. -/
  parentheses : Nat := 0

/-- What stands here is quoted. -/
def Frame.isQuoted (f : Frame) : Bool := f.doubled || f.place = .singleQuotes

/-- The bytes that end an unquoted word. -/
def endsWord (c : Char) : Bool :=
  isSpaceOrTab c || c = '\n' || c = ';' || c = '&' || c = '|' || c = '<' || c = '>' || c = '('
    || c = ')'

/-- The name in braces behind a dollar sign, if it is one, and whether its size is asked for. -/
def scanBracedName (n : Nat) : Scan (Option Text × Bool) := do
  let c := (← peekJoined).getD '}'
  if isNameStart c then return (some (← takeJoined isNameByte n), false)
  else if c.isDigit then return (some (← takeJoined Char.isDigit n), false)
  else if c = '}' then return (none, false)
  else do
    skipUncounted
    let after ← peekJoined
    if c = '#' then
      if after.any isNameStart then return (some (← takeJoined isNameByte n), true)
      else if after.any Char.isDigit then return (some (← takeJoined Char.isDigit n), true)
      else
        let before ← get
        skip
        if after = some '}' || (← peekJoined) ≠ some '}' then
          set before
          return (some ['#'], false)
        else match after with
          | some d => if isSpecial d then return (some [d], true) else return (none, false)
          | none => return (none, false)
    else if isSpecial c then return (some [c], false)
    else return (none, false)

/-- What follows the name in braces: the change, and whether it has a colon. The braces are still open
unless there is neither. -/
def scanChange : Scan (Change × Bool) := do
  if ← accept '%' then return (.cutBack (← accept '%'), false)
  else if ← accept '#' then return (.cutFront (← accept '#'), false)
  else
    let colon ← accept ':'
    let c ← peekJoined
    if c.isSome then skipUncounted
    return (match c with
      | some '}' => .asIs
      | some '-' => .fallback
      | some '+' => .alternative
      | some '?' => .demand
      | some '=' => .assign
      | _ => .unknown, colon)

/-- A parameter in braces behind the brace. -/
def scanBraced (n : Nat) (f : Frame) (fs : List Frame) (signs : List Sign) :
    Scan (List Frame × List Sign) := do
  let (name?, size) ← scanBracedName n
  let name := name?.getD []
  let (change, colon) ← match name? with
    | none => pure (.unknown, false)
    | some _ =>
      if size then pure (if (← peekJoined) = some '}' then .size else .unknown, false)
      else scanChange
  if change = .asIs && !colon then
    return (f :: fs, .piece (.parameter name .asIs false [] f.isQuoted) :: signs)
  else
    let place := match change with
      | .cutFront _ => .bare
      | .cutBack _ => .bare
      | _ => if f.place = .calculation then .doubleQuotes else f.place
    let frames := if place ≠ f.place || f.inner then
        { place, doubled := place ≠ .bare, own := true } :: f :: fs
      else f :: fs
    let frames := match frames with
      | g :: gs => { g with
          braces := g.braces + 1
          doubledBraces := if g.doubled then g.doubledBraces + 1 else g.doubledBraces } :: gs
      | [] => []
    return (frames, .openValue name change colon f.isQuoted :: signs)

/-- The script in backquotes up to the second one. -/
def scanBackquoted (doubled : Bool) : Nat → Scan Text
  | 0 => return []
  | n + 1 => do
    match ← peekJoined with
    | none => wrong "EOF in backquote substitution".toList
    | some '\x60' => skip; return []
    | some '\\' =>
      skip
      match ← peek with
      | some c =>
        skip
        let rest ← scanBackquoted doubled n
        return if c = '\\' || c = '\x60' || c = '$' || (doubled && c = '"') then c :: rest
          else '\\' :: c :: rest
      | none => wrong "EOF in backquote substitution".toList
    | some c => skip; return c :: (← scanBackquoted doubled n)

/-- Reads a script of its own, from its first line on, and then goes on here. -/
def scanApart {α : Type} (script : Text) (action : Scan α) : Scan α := do
  let before ← get
  set { before with rest := script, line := 1, inUse := [] }
  let result ← action
  modify fun r =>
    { r with rest := before.rest, line := before.line, pushed := false, inUse := before.inUse }
  return result

/-- What a dollar sign introduces, which has been taken already. -/
def scanDollar (commands : Bool → Scan Command) (n : Nat) (stop : Bool) (f : Frame) (fs : List Frame)
    (signs : List Sign) : Scan (List Frame × List Sign) := do
  let stay (p : Piece) : Scan (List Frame × List Sign) := return (f :: fs, .piece p :: signs)
  let c? ← peekJoined
  match if stop then none else c? with
  | some '(' =>
    skip
    if ← accept '(' then
      return ({ place := .calculation, doubled := true } :: f :: fs, .openSum f.isQuoted :: signs)
    else stay (.output (← commands false) f.isQuoted)
  | some '\x7b' => skip; scanBraced n f fs signs
  | some c =>
    if isNameStart c then stay (.parameter (← takeJoined isNameByte n) .asIs false [] f.isQuoted)
    else if isSpecial c then do skip; stay (.parameter [c] .asIs false [] f.isQuoted)
    else stay (.byte '$' f.isQuoted)
  | none => stay (.byte '$' f.isQuoted)

/-- What is read in one go. -/
inductive Extent
  /-- A word of a command. -/
  | word
  /-- A text, up to its end. In it quotes stand for themselves. -/
  | text
  /-- Such a text up to the line that stops a document. -/
  | document (a : Announcement)

/-- Quotes stand for themselves. -/
def Extent.isText : Extent → Bool
  | word => false
  | _ => true

/-- What is left behind the line that stops a document, if a text starts with that line. -/
def Announcement.behind? (a : Announcement) (t : Text) : Option Text :=
  if a.stop.isPrefixOf t then
    match t.drop a.stop.length with
    | [] => some []
    | '\n' :: r => some r
    | _ => none
  else none

/-- At the start of a line: the document ends here, and the line that stops it is taken. Line ends are joined
in front of the tabs that are dropped, but not behind them. -/
def Extent.ends (joins : Bool) (e : Extent) : Scan Bool := do
  if joins then let _ ← peekJoined
  let r ← get
  match e with
  | document a =>
    let rest := if a.dropTabs then r.rest.dropWhile (· = '\t') else r.rest
    match a.behind? rest with
    | none =>
      set { r with rest }
      return false
    | some behind =>
      set { r with rest := behind, line := if rest.length = a.stop.length then r.line else r.line + 1 }
      return true
  | _ => return false

/-- A byte behind a backslash, which has been taken already. -/
def scanEscaped (document : Bool) (f : Frame) : Scan (List Sign) := do
  match ← peek with
  | none => return [.piece (.byte '\\' true)]
  | some c =>
    skip
    if f.doubled && c ≠ '\\' && c ≠ '\x60' && c ≠ '$' && (c ≠ '"' || (document && f.braces = 0))
        && (c ≠ '\x7d' || f.braces = 0) then
      return [.piece (.byte c true), .piece (.byte '\\' true)]
    else return [.piece (.byte c true)]

/-- The word ends here. All that has been opened has to be closed. -/
def endScan (document : Bool) (frames : List Frame) (signs : List Sign) : Scan (List Sign) := do
  match frames with
  | f :: _ =>
    if f.place = .calculation then wrong "Missing '))'".toList
    else if f.place ≠ .bare && !document then wrong "Unterminated quoted string".toList
    else if f.braces ≠ 0 then wrong "Missing '\x7d'".toList
    else return signs
  | [] => return signs

/-- The signs of a word or of a text, latest first. With `stop`, the word says where a document stops, and
nothing in it is replaced. The first byte of a line is taken as it is, because line ends are joined before
the line is compared with the one that stops a document. -/
def scanSigns (commands : Bool → Scan Command) (extent : Extent) (stop : Bool) :
    Nat → Bool → List Frame → List Sign → Scan (List Sign)
  | 0, _, _, signs => return signs
  | _ + 1, _, [], signs => return signs
  | n + 1, fresh, f :: fs, signs => do
    let document := extent.isText
    let border : List Sign := if document then [] else [.piece .mark]
    let goAll (frames : List Frame) (signs : List Sign) : Scan (List Sign) :=
      scanSigns commands extent stop n false frames signs
    let go (f : Frame) (more : List Sign) : Scan (List Sign) := goAll (f :: fs) (more ++ signs)
    let here (c : Char) : Scan (List Sign) := go f [.piece (.byte c f.isQuoted)]
    match ← if fresh || f.place = .singleQuotes then peek else peekJoined with
    | none => endScan document (f :: fs) signs
    | some c =>
      if f.place = .bare && f.braces = 0 && endsWord c then endScan document (f :: fs) signs
      else
        skip
        if c = '\n' && document then
          let signs := .piece (.byte c f.isQuoted) :: signs
          if ← extent.ends (f.place ≠ .singleQuotes) then endScan document (f :: fs) signs
          else scanSigns commands extent stop n true (f :: fs) signs
        else if f.place = .singleQuotes then
          if c = '\'' then go { f with place := .bare } border else here c
        else if c = '\\' then go f (← scanEscaped document f)
        else if c = '$' then
          let (frames, signs) ← scanDollar commands n stop f fs signs
          goAll frames signs
        else if c = '\x60' && !stop then
          let script ← scanBackquoted f.doubled n
          go f [.piece (.output (← scanApart script (commands true)) f.isQuoted)]
        else if c = '\'' && f.place = .bare then go { f with place := .singleQuotes } border
        else if c = '"' && f.place = .bare then
          go { f with place := .doubleQuotes, doubled := true, inner := f.inner != (f.braces > 0) }
            border
        else if c = '"' && f.place = .doubleQuotes then
          if document && f.braces = 0 then here c
          else
            let g := if f.doubledBraces = 0 then { f with place := .bare, doubled := false } else f
            go { g with inner := f.inner != (f.braces > 0) } border
        else if c = '\x7d' && !f.inner && f.braces > 0 then
          let signs := .close :: signs
          if f.braces = 1 && f.own then goAll fs signs
          else goAll ({ f with
            braces := f.braces - 1, doubledBraces := f.doubledBraces - 1 } :: fs) signs
        else if c = '(' && f.place = .calculation then
          go { f with parentheses := f.parentheses + 1 } [.piece (.byte c true)]
        else if c = ')' && f.place = .calculation then
          if f.parentheses > 0 then
            go { f with parentheses := f.parentheses - 1 } [.piece (.byte c true)]
          else if ← accept ')' then goAll fs (.close :: signs)
          else here c
        else here c

/-- The word at the front. -/
def scanWord (commands : Bool → Scan Command) (stop : Bool) (n : Nat) : Scan Word :=
  return nest (← scanSigns commands .word stop n false [{}] []).reverse [] []

/-! ## Documents -/

/-- The lines of a verbatim document, and what follows the line that stops it. -/
def verbatimLines (a : Announcement) : Nat → Text → Text × Text
  | 0, t => ([], t)
  | _ + 1, [] => ([], [])
  | n + 1, t =>
    let t := if a.dropTabs then t.dropWhile (· = '\t') else t
    match a.behind? t with
    | some rest => ([], rest)
    | none =>
      let line := t.takeWhile (· ≠ '\n')
      let rest := t.drop line.length
      let (more, after) := verbatimLines a n (rest.drop 1)
      (line ++ rest.take 1 ++ more, after)

/-- The pieces of a text, in which quotes stand for themselves. -/
def scanText (commands : Bool → Scan Command) (extent : Extent) (n : Nat) : Scan Word := do
  if ← extent.ends true then return []
  let frame : Frame := { place := .doubleQuotes, doubled := true }
  return nest (← scanSigns commands extent false n true [frame] []).reverse [] []

/-- Reads a document. -/
def readDocument (commands : Bool → Scan Command) (n : Nat) (a : Announcement) : Scan Unit := do
  let word ←
    if a.verbatim then
      let r ← get
      let (body, rest) := verbatimLines a (r.rest.length + 1) r.rest
      let taken := r.rest.take (r.rest.length - rest.length)
      set { r with rest, line := r.line + taken.count '\n' }
      pure (body.map (.byte · true))
    else scanText commands (.document a) n
  modify fun r => { r with documents := (a.number, word) :: r.documents }

/-- Reads the documents that have been announced. -/
def readDocuments (commands : Bool → Scan Command) (n : Nat) : Scan Unit := do
  let announced := (← get).announced
  modify fun r => { r with announced := [] }
  announced.forM (readDocument commands n)

/-! ## Tokens -/

/-- The words with a meaning of their own. -/
def reservedWords : List Text :=
  ["!", "case", "do", "done", "elif", "else", "esac", "fi", "for", "if", "in", "then", "until", "while",
    "\x7b", "\x7d"].map String.toList

/-- What the place of a token makes of it. -/
structure Role where
  /-- Line ends before it do not count. -/
  skipsLines : Bool := false
  /-- It can be a reserved word. -/
  reserves : Bool := false
  /-- It can be an alias. -/
  aliases : Bool := false
  /-- It says where a document stops. -/
  stops : Bool := false

/-- The role of the first word of a command. -/
def Role.command : Role := { reserves := true, aliases := true }

/-- The role of the first word of a command that may stand on a later line. -/
def Role.next : Role := { Role.command with skipsLines := true }

/-- Blanks and a comment at the front are taken. -/
def skipBlanks : Nat → Scan Unit
  | 0 => return ()
  | n + 1 => do
    match ← peekJoined with
    | some c =>
      if isSpaceOrTab c then do skip; skipBlanks n
      else if c = '#' then modify fun r => { r with rest := r.rest.dropWhile (· ≠ '\n') }
      else return ()
    | none => return ()

/-- A redirection, of which the channel, if it is given, has been taken already. -/
def scanRedirection (channel : Option Nat) : Scan Token := do
  let opening (standard : Nat) (o : Opening) : Token := .redirection (channel.getD standard) o
  if ← accept '>' then
    if ← accept '>' then return opening 1 (.file .append)
    else if ← accept '|' then return opening 1 (.file .overwrite)
    else if ← accept '&' then return opening 1 .duplicate
    else return opening 1 (.file .write)
  else
    let _ ← accept '<'
    if ← accept '<' then return opening 0 (.document (← accept '-'))
    else if ← accept '&' then return opening 0 .duplicate
    else if ← accept '>' then return opening 0 (.file .readWrite)
    else return opening 0 (.file .read)

/-- The aliases whose text has been read are in use no longer. -/
def dropAliases : Scan Unit := modify fun r =>
  let (ended, inUse) := r.inUse.partition fun a => r.rest.length ≤ a.behind
  { r with inUse, again := ended.any (·.blank) }

/-- The token at the front, whatever its place. -/
def scanToken (commands : Bool → Scan Command) (stop : Bool) (n : Nat) : Scan Token := do
  skipBlanks n
  dropAliases
  let twice (c : Char) : Scan Token := do
    skip
    return .operator (if ← accept c then [c, c] else [c])
  match ← peekJoined with
  | none => return .finish
  | some c =>
    if c = '\n' then do skip; return .lineEnd
    else if c = '&' || c = '|' || c = ';' then twice c
    else if c = '(' || c = ')' then do skip; return .operator [c]
    else
      let w ← scanWord commands stop n
      let arrow := (← peekJoined).any fun d => d = '<' || d = '>'
      match w with
      | [] => if arrow then scanRedirection none else return .word w
      | [.byte d false] =>
        if arrow && d.isDigit then scanRedirection (some (d.toNat - 48)) else return .word w
      | _ => return .word w

/-- The text of an alias that is not being read already. -/
def Reader.alias? (r : Reader) (name : Text) : Option Text :=
  if r.inUse.any fun a => a.name = name then none else r.aliases.lookup name

/-- The token that was read last, if it is to be read again, or else the one at the front. -/
def takeToken (commands : Bool → Scan Command) (stop : Bool) (n : Nat) : Scan Token := do
  let r ← get
  if r.pushed then
    set { r with pushed := false }
    return r.token
  else scanToken commands stop n

/-- The next token in its role. -/
def readTokenAs (commands : Bool → Scan Command) (role : Role) : Nat → Scan Token
  | 0 => return .finish
  | n + 1 => do
    let finish (t : Token) : Scan Token := do
      modify fun r => { r with token := t }
      return t
    match ← takeToken commands role.stops n with
    | .lineEnd =>
      if role.skipsLines then do
        readDocuments commands n
        readTokenAs commands role n
      else finish .lineEnd
    | .word w =>
      match plain? w with
      | none => finish (.word w)
      | some t =>
        if role.reserves && reservedWords.contains t then finish (.reserved t)
        else
          let r ← get
          match if role.aliases || r.again then r.alias? t else none with
          | none => finish (.word w)
          | some text =>
            let use : AliasUse := ⟨t, r.rest.length, text.getLast?.any isSpaceOrTab⟩
            set { r with rest := text ++ r.rest, inUse := use :: r.inUse }
            readTokenAs commands role n
    | t => finish t

/-- The token that was read last is read again. -/
def push : Scan Unit := modify fun r => { r with pushed := true }

/-- The token that was read last is out of place. -/
def unexpected {α : Type} (expected : Option String := none) : Scan α := do
  let t := (← get).token
  wrong (t.describe ++ " unexpected".toList ++ match expected with
    | some e => " (expecting ".toList ++ e.toList ++ [')']
    | none => [])

end Flatsheet.Shell
