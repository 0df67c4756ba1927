/-!
# Command-line arguments

What the arguments of a command ask for. They are read from left to right. The first one that does
not fit, or that asks for help, ends the reading; what is missing shows at the end.
-/

namespace Remix.CommandLine

/-- Where the text of a recipe comes from. -/
inductive RecipeSource where
  | text (text : String)
  | file (path : String)
  deriving DecidableEq, Repr

structure RenderOptions where
  stems : String
  output : String
  settings : Option String
  bitDepth : Option UInt16
  normalize : Bool
  report : Option String
  deriving DecidableEq, Repr

inductive Command where
  | check (recipe : RecipeSource)
  | format (recipe : RecipeSource)
  | render (recipe : RecipeSource) (options : RenderOptions)
  | actions
  deriving DecidableEq, Repr

/-- A command and whether it tells everything that it does. -/
structure Invocation where
  verbose : Bool
  command : Command
  deriving DecidableEq, Repr

/-- Why arguments lead to no command. -/
inductive Refusal where
  | asksForHelp
  | misused
  deriving DecidableEq, Repr

def Refusal.exitCode : Refusal → Nat
  | asksForHelp => 0
  | misused => 2

/-- The commands by their names. -/
inductive Verb where
  | check
  | format
  | render
  | actions
  deriving DecidableEq, Repr

namespace Verb

def ofName? : String → Option Verb
  | "check" => some check
  | "fmt" => some format
  | "render" => some render
  | "actions" => some actions
  | _ => none

end Verb

/-- Options that stand alone. -/
inductive Flag where
  | help
  | version
  | verbose
  | normalize
  deriving DecidableEq, Repr

/-- Options with a value. -/
inductive Setting where
  | recipe
  | recipeFile
  | stems
  | settings
  | bitDepth
  | report
  deriving DecidableEq, Repr

inductive Switch where
  | flag (f : Flag)
  | setting (s : Setting)
  deriving DecidableEq, Repr

namespace Switch

/-- The options by their long names. -/
def named : List (String × Switch) :=
  [("help", .flag .help), ("version", .flag .version), ("verbose", .flag .verbose),
   ("normalize", .flag .normalize), ("recipe", .setting .recipe),
   ("recipe-file", .setting .recipeFile), ("stems", .setting .stems),
   ("config", .setting .settings), ("bit-depth", .setting .bitDepth), ("report", .setting .report)]

/-- The options by their letters. -/
def lettered : List (Char × Switch) :=
  [('h', .flag .help), ('V', .flag .version), ('v', .flag .verbose), ('r', .setting .recipe),
   ('f', .setting .recipeFile), ('s', .setting .stems), ('c', .setting .settings)]

/-- Whether an option may stand before the command. -/
def isGlobal : Switch → Bool
  | flag .help | flag .version | flag .verbose => true
  | _ => false

/-- Whether an option may stand behind a command. -/
def isFor (v : Verb) : Switch → Bool
  | flag .help | flag .verbose => true
  | flag .version => false
  | setting .recipe | setting .recipeFile => v ≠ .actions
  | _ => v = .render

end Switch

/-- What has been read of arguments. After `--` no argument is an option. -/
structure Reading where
  flags : List Flag
  settings : List (Setting × String)
  /-- An option whose value is the next argument. -/
  waiting : Option Setting
  operands : List String
  onlyOperands : Bool
  deriving DecidableEq, Repr

namespace Reading

def initial : Reading := ⟨[], [], none, [], false⟩

/-- A flag may be given once. Asking for help or for the version ends the reading. -/
def takeFlag (r : Reading) (f : Flag) : Except Refusal Reading :=
  if f = .help ∨ f = .version then .error .asksForHelp
  else if f ∈ r.flags then .error .misused
  else .ok { r with flags := f :: r.flags }

end Reading

/-- The whole number with a sign or without that a text is. -/
def wholeNumber? (text : String) : Option Int :=
  let (negative, digits) := match text.toList with
    | '-' :: rest => (true, rest)
    | '+' :: rest => (false, rest)
    | cs => (false, cs)
  if digits.isEmpty ∨ ¬ digits.all Char.isDigit then none
  else
    let n : Int := digits.foldl (fun n c => 10 * n + (c.toNat - '0'.toNat)) 0
    some (if negative then -n else n)

/-- The depth that a text names, which need not be one that can be written. -/
def bitDepth? (text : String) : Option UInt16 :=
  (wholeNumber? text).bind fun n =>
    if 0 ≤ n ∧ n < UInt16.size then some (UInt16.ofNat n.toNat) else none

/-- Whether an option can have a value. Paths are not empty. -/
def Setting.accepts (value : String) : Setting → Bool
  | recipe => true
  | bitDepth => (bitDepth? value).isSome
  | _ => value ≠ ""

namespace Reading

/-- A value may be given once. -/
def takeValue (r : Reading) (s : Setting) (value : String) : Except Refusal Reading :=
  if (r.settings.lookup s).isSome ∨ ¬ s.accepts value then .error .misused
  else .ok { r with settings := (s, value) :: r.settings, waiting := none }

/-- Reads the letters behind a dash. The first option with a value takes what follows as its value,
or else the next argument. -/
def takeLetters (allowed : Switch → Bool) (r : Reading) : List Char → Except Refusal Reading
  | [] => .ok r
  | c :: cs =>
    match (Switch.lettered.lookup c).filter allowed with
    | none => .error .misused
    | some (.flag f) =>
      match r.takeFlag f with
      | .ok r => takeLetters allowed r cs
      | .error refusal => .error refusal
    | some (.setting s) =>
      match cs with
      | [] => .ok { r with waiting := some s }
      | '=' :: value => r.takeValue s (String.ofList value)
      | value => r.takeValue s (String.ofList value)

/-- Reads an option by its long name, with its value behind an equals sign or in the next
argument. -/
def takeName (allowed : Switch → Bool) (r : Reading) (cs : List Char) : Except Refusal Reading :=
  let name := String.ofList (cs.takeWhile (· ≠ '='))
  match (Switch.named.lookup name).filter allowed, cs.dropWhile (· ≠ '=') with
  | some (.flag f), [] => r.takeFlag f
  | some (.setting s), [] => .ok { r with waiting := some s }
  | some (.setting s), _ :: value => r.takeValue s (String.ofList value)
  | _, _ => .error .misused

/-- Reads an argument as an option, if it is one. -/
def takeOption? (allowed : Switch → Bool) (r : Reading) (arg : String) :
    Option (Except Refusal Reading) :=
  match arg.toList with
  | ['-', '-'] => some (.ok { r with onlyOperands := true })
  | '-' :: '-' :: cs => some (r.takeName allowed cs)
  | '-' :: c :: cs => some (r.takeLetters allowed (c :: cs))
  | _ => none

/-- Reads an argument behind a command that takes `most` operands. What looks like an option is not
a value. -/
def take (allowed : Switch → Bool) (most : Nat) (r : Reading) (arg : String) :
    Except Refusal Reading :=
  let asOperand : Except Refusal Reading :=
    if r.operands.length < most ∧ arg ≠ "" then .ok { r with operands := r.operands ++ [arg] }
    else .error .misused
  if r.onlyOperands then asOperand
  else
    match r.waiting, takeOption? allowed r arg with
    | none, some result => result
    | none, none => asOperand
    | some s, none => r.takeValue s arg
    | some _, some _ => .error .misused

end Reading

/-- The recipe that is asked for: there is exactly one. -/
def Reading.recipe? (r : Reading) : Option RecipeSource :=
  match r.settings.lookup .recipe, r.settings.lookup .recipeFile with
  | some text, none => some (.text text)
  | none, some path => some (.file path)
  | _, _ => none

/-- The command that is asked for, if nothing is missing. -/
def Reading.command? (r : Reading) (v : Verb) : Option Command :=
  match v with
  | .check => r.recipe?.map .check
  | .format => r.recipe?.map .format
  | .actions => some .actions
  | .render => do
    let recipe ← r.recipe?
    let stems ← r.settings.lookup .stems
    let output ← r.operands.head?
    return .render recipe
      { stems, output
        settings := r.settings.lookup .settings
        bitDepth := (r.settings.lookup .bitDepth).bind bitDepth?
        normalize := .normalize ∈ r.flags
        report := r.settings.lookup .report }

/-- The number of operands that a command takes. -/
def Verb.operands : Verb → Nat
  | render => 1
  | _ => 0

/-- What the arguments behind a command ask for. -/
def Verb.read (v : Verb) (verbose : Bool) (args : List String) : Except Refusal Invocation := do
  let r ← args.foldlM (Reading.take (Switch.isFor v) v.operands) Reading.initial
  if r.waiting.isSome then throw .misused
  match r.command? v with
  | some command => return ⟨verbose || .verbose ∈ r.flags, command⟩
  | none => throw .misused

/-- What arguments ask for. The first one that is not an option is the command; `help` may be
followed by the name of a command. -/
def readFrom (r : Reading) : List String → Except Refusal Invocation
  | [] => .error .misused
  | arg :: args =>
    match r.takeOption? Switch.isGlobal arg with
    | some (.ok r) => if r.onlyOperands then .error .misused else readFrom r args
    | some (.error refusal) => .error refusal
    | none =>
      match Verb.ofName? arg with
      | some v => v.read (.verbose ∈ r.flags) args
      | none =>
        let known := arg = "help" ∧ args.length ≤ 1 ∧
          args.all fun name => name = "help" ∨ (Verb.ofName? name).isSome
        .error (if known then .asksForHelp else .misused)

/-- What the arguments of the program ask for. -/
def Invocation.ofArguments (args : List String) : Except Refusal Invocation :=
  readFrom .initial args

end Remix.CommandLine
