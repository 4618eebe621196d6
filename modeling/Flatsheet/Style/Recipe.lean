import Flatsheet.Style.Mixin
import Flatsheet.Style.Reference

/-!
# `Flatsheet.Style.Recipe` — plain declarations for the known mixins

Each known mixin has a recipe that says which declarations take the place of its include. A recipe fails
if an argument that it needs is missing; such an include, like one of an unknown mixin, is replaced by a
comment that asks for manual work.

## Contents

* `Recipe`, `recipes`: the known mixins
* `Recipe.expand`, `MixinCall.expand?`
* `MixinCall.marker`: the comment for the rest
-/

namespace Flatsheet.Style

open Text

/-! ## Tables -/

/-- The media queries of the named breakpoints. -/
def breakpoints : List (Text × Text) :=
  [("xxs", "(max-width:320px)"), ("xs", "(max-width:767px)"),
    ("mobile-tablet", "(max-width:1024px)"),
    ("tablet-only", "(min-width:768px) and (max-width:1024px)"), ("sm", "(min-width:768px)"),
    ("md", "(min-width:1025px)"), ("lg", "(min-width:1200px)"),
    ("sm-desktop", "(max-width:1199px)"), ("xl", "(min-width:1400px)")].map
    fun (name, query) => (name.toList, query.toList)

/-- The stacking numbers of the named layers. -/
def layers : List (Text × Int) :=
  [("header", 1000), ("header-fixed", 1080), ("modal", 1050), ("tooltip", 1070), ("popover", 1060),
    ("mobile-overlay", 1030), ("overlay", 1000), ("top", 500), ("extra-high", 400), ("high", 300),
    ("mid", 200), ("low", 100), ("half", 50), ("impact", 1), ("buried", -1)].map
    fun (name, z) => (name.toList, z)

/-- How a known mixin turns its arguments into declarations. -/
inductive Recipe
  /-- The same text whatever the arguments. -/
  | fixed (text : Text)
  /-- One property, whose value is all arguments with spaces between them. -/
  | spaced (property : Text)
  /-- One property, whose value is all arguments with commas between them. -/
  | commas (property : Text)
  /-- One property, whose value is the first two arguments with a comma between them. -/
  | pair (property : Text)
  /-- Several properties, whose common value is the first argument. -/
  | oneFor (properties : List Text) (fallback : Text)
  /-- A rotation by the first argument. -/
  | rotation
  /-- A filter function applied to its amount. -/
  | filter
  /-- A computed value of the property that the first argument names. -/
  | calculation
  /-- Centring at an edge, or in both directions. -/
  | centering
  /-- A named layer, raised by the second argument. -/
  | layer
  /-- A background colour with an opacity. -/
  | translucent
  /-- A gradient in a direction between two colours. -/
  | gradient (direction : Text)
  /-- A position and the distances from the four sides. -/
  | placed (position : Text)
  /-- The colour of placeholder text. -/
  | placeholder
  /-- The content block inside a media query. -/
  | media
deriving DecidableEq, Repr

/-- One declaration, written without blanks. -/
def property (name value : Text) : Text := name ++ ":".toList ++ value ++ ";".toList

/-- Declarations, written without blanks. -/
def properties (ds : List (String × String)) : Text :=
  ds.flatMap fun (name, value) => property name.toList value.toList

/-- The declarations that hide an element from view but not from readers. -/
def hiddenDeclarations : Text :=
  properties [("position", "absolute!important"), ("width", "1px!important"),
    ("height", "1px!important"), ("padding", "0!important"), ("margin", "-1px!important"),
    ("overflow", "hidden!important"), ("clip", "rect(0,0,0,0)!important"),
    ("border", "0!important")]

/-- The known mixins with their recipes. -/
def recipes : List (Text × Recipe) :=
  [("flexbox", .fixed (properties [("display", "flex")])),
    ("inline-flex", .fixed (properties [("display", "inline-flex")])),
    ("flex-dir", .spaced "flex-direction".toList),
    ("flex-just", .spaced "justify-content".toList),
    ("flex-direction", .spaced "flex-direction".toList),
    ("flex-wrap", .spaced "flex-wrap".toList),
    ("flex-flow", .spaced "flex-flow".toList),
    ("justify-content", .spaced "justify-content".toList),
    ("align-items", .spaced "align-items".toList),
    ("align-self", .spaced "align-self".toList),
    ("align-content", .spaced "align-content".toList),
    ("order", .spaced "order".toList),
    ("flex", .spaced "flex".toList),
    ("flex-grow", .spaced "flex-grow".toList),
    ("flex-shrink", .spaced "flex-shrink".toList),
    ("flex-basis", .spaced "flex-basis".toList),
    ("border-radius", .spaced "border-radius".toList),
    ("opacity", .spaced "opacity".toList),
    ("transform", .spaced "transform".toList),
    ("transition", .commas "transition".toList),
    ("box-shadow", .commas "box-shadow".toList),
    ("animation", .commas "animation".toList),
    ("transition-2", .pair "transition".toList),
    ("box-shadow-2", .pair "box-shadow".toList),
    ("rotate", .rotation),
    ("translatez", .fixed (properties [("transform", "translatez(0)")])),
    ("translateZ", .fixed (properties [("transform", "translatez(0)")])),
    ("filter", .filter),
    ("visually-hidden", .fixed hiddenDeclarations),
    ("sr-only", .fixed hiddenDeclarations),
    ("iframehack", .fixed (properties [("width", "1px"), ("min-width", "100%")])),
    ("vertical-align", .fixed (properties
      [("position", "relative"), ("top", "50%"), ("transform", "translateY(-50%)")])),
    ("centering", .centering),
    ("z-index", .layer),
    ("trans", .translucent),
    ("gradient", .gradient "to bottom".toList),
    ("gradient-left-right", .gradient "to right".toList),
    ("calc", .calculation),
    ("box-sizing", .oneFor ["box-sizing".toList] "border-box".toList),
    ("appearance", .oneFor
      ["-webkit-appearance".toList, "-moz-appearance".toList, "appearance".toList] "none".toList),
    ("user-select", .oneFor ["-webkit-user-select".toList, "user-select".toList] "none".toList),
    ("clearfix", .fixed "&::after\x7bcontent:\"\";display:table;clear:both;\x7d".toList),
    ("absolute", .placed "absolute".toList),
    ("relative", .placed "relative".toList),
    ("fixed", .placed "fixed".toList),
    ("placeholder-color", .placeholder),
    ("breakpoint", .media),
    ("media-breakpoint-up", .media)].map fun (name, recipe) => (name.toList, recipe)

/-- The mixin has a recipe. -/
def isKnownMixin (name : Text) : Bool := (recipes.lookup name).isSome

/-! ## Arguments -/

/-- The argument without a keyword `$name:` in front, its references converted. -/
def normalizeArgument (argument : Text) : Text :=
  let value := match argument with
    | '$' :: r =>
      match trimLeft (r.dropWhile isIdent) with
      | ':' :: v => trim v
      | _ => argument
    | _ => argument
  (convertReferences value).1

/-- Texts with a separator between each two. -/
def joinWith (separator : Text) : List Text → Text
  | [] => []
  | [t] => t
  | t :: ts => t ++ separator ++ joinWith separator ts

/-- The argument at an index, or the fallback if it is missing or empty. -/
def argument (args : List Text) (i : Nat) (fallback : Text) : Text :=
  match args[i]? with
  | some a => if a.isEmpty then fallback else a
  | none => fallback

/-- The media query of a breakpoint: a named one, or a least width. -/
def mediaQuery? (breakpoint : Text) : Option Text :=
  let key := lower (trim breakpoint)
  match breakpoints.lookup key with
  | some query => some query
  | none =>
    if key.head?.any fun c => c.isDigit || c = 'v' then
      some ("(min-width:".toList ++ key ++ ")".toList)
    else none

/-- An integer of 64 bits, or zero for any other text. -/
def wordOrZero (t : Text) : Int :=
  match integer? t with
  | some n => if -9223372036854775808 ≤ n && n ≤ 9223372036854775807 then n else 0
  | none => 0

/-! ## Expansion -/

/-- The declarations that centre an element at an edge, or in both directions. -/
def centered (edge amount : Text) : Text :=
  let moved (axis sign : String) : Text :=
    property edge amount ++ property "transform".toList
      ("translate".toList ++ axis.toList ++ "(".toList ++ sign.toList ++ amount ++ ")".toList)
  property "position".toList "absolute".toList ++
    if edge = "top".toList then moved "Y" "-"
    else if edge = "bottom".toList then moved "Y" ""
    else if edge = "left".toList then moved "X" "-"
    else if edge = "right".toList then moved "X" ""
    else property "top".toList amount ++ property "left".toList amount ++
      property "transform".toList
        ("translate(-".toList ++ amount ++ ",-".toList ++ amount ++ ")".toList)

/-- The declarations that a recipe makes of normalized arguments. `call` is the include itself. -/
def Recipe.expand (r : Recipe) (call : MixinCall) (args : List Text) : Option Text :=
  let first := args.headD []
  let second := args.getD 1 []
  match r with
  | .fixed text => some text
  | .spaced name => if first.isEmpty then none else some (property name (joinWith [' '] args))
  | .commas name => if args.isEmpty then none else some (property name (joinWith [','] args))
  | .pair name =>
    if first.isEmpty || second.isEmpty then none
    else some (property name (first ++ ",".toList ++ second))
  | .oneFor names fallback =>
    some (names.flatMap fun name => property name (argument args 0 fallback))
  | .rotation =>
    if first.isEmpty then none
    else some (property "transform".toList ("rotate(".toList ++ first ++ ")".toList))
  | .filter =>
    if args.length < 2 then none
    else some (property "filter".toList (first ++ "(".toList ++ second ++ ")".toList))
  | .calculation =>
    if args.length < 2 || first.isEmpty then none
    else some (property first ("calc(".toList ++ second ++ ")".toList))
  | .centering => some (centered (argument args 0 "top".toList) (argument args 1 "50%".toList))
  | .layer =>
    if first.isEmpty then none
    else
      let name := unquote first
      match layers.lookup name with
      | some z =>
        some (property "z-index".toList (Text.ofInt (z + wordOrZero (argument args 1 "0".toList))))
      | none => some (property "z-index".toList name)
  | .translucent =>
    if args.length < 2 then none
    else some (property "background".toList
      ("rgba(".toList ++ first ++ ",".toList ++ second ++ ")".toList))
  | .gradient direction =>
    if args.length < 2 then none
    else some (property "background-color".toList first ++ property "background".toList
      ("linear-gradient(".toList ++ direction ++ ",".toList ++ first ++ ",".toList ++ second
        ++ ")".toList))
  | .placed position =>
    let side (name : String) (i : Nat) : Text :=
      let distance := argument args i []
      if distance.isEmpty || distance = "null".toList then [] else property name.toList distance
    some (property "position".toList position ++ side "top" 0 ++ side "right" 1 ++ side "bottom" 2
      ++ side "left" 3)
  | .placeholder =>
    if args.isEmpty then none
    else some ("&::placeholder\x7b".toList ++ property "color".toList first ++ "\x7d".toList)
  | .media =>
    match call.parameters.head?, call.block with
    | some breakpoint, some block =>
      (mediaQuery? breakpoint).map fun query =>
        "@media ".toList ++ query ++ "\x7b".toList ++ (convertReferences block).1 ++ "\x7d".toList
    | _, _ => none

/-- The declarations that take the place of an include of a known mixin, unless an argument that they
need is missing. -/
def MixinCall.expand? (call : MixinCall) : Option Text :=
  (recipes.lookup call.name).bind fun r => r.expand call (call.parameters.map normalizeArgument)

/-! ## The marker -/

/-- The comment that takes the place of an include that nobody can expand. -/
def MixinCall.marker (call : MixinCall) : Text :=
  let arguments :=
    if call.parameters.isEmpty then []
    else "(".toList ++ joinWith ", ".toList call.parameters ++ ")".toList
  let block := match call.block with
    | some b => if b.isEmpty then [] else " \x7b ".toList ++ breakCommentEnds b ++ " \x7d".toList
    | none => []
  "/* TODO: convert mixin ".toList ++ breakCommentEnds (call.name ++ arguments)
    ++ " manually".toList ++ block ++ " */".toList

end Flatsheet.Style
