/-!
# Command line arguments

Every parameter has a long name and a letter. A value follows its parameter as the next argument,
after `=`, or, for a letter, directly. Letters of parameters without a value can stand together. A
parameter is given at most once, `--` ends the parameters, and nothing else is accepted. Reading
stops at a request for help or at the first argument that is out of place.
-/

namespace Nes.Cli

/-! ## Parameters -/

/-- What can be set on the command line. -/
inductive Parameter where
  | rom | frames | stepsPerFrame | dumpCpu | dumpPpu | vectors | trace | help
deriving DecidableEq

namespace Parameter

/-- All parameters, in the order in which help would list them. -/
def all : List Parameter :=
  [rom, frames, stepsPerFrame, dumpCpu, dumpPpu, vectors, trace, help]

/-- The letter behind a single dash. -/
def letter : Parameter → Char
  | rom => 'r' | frames => 'f' | stepsPerFrame => 's' | dumpCpu => 'c' | dumpPpu => 'p'
  | vectors => 'v' | trace => 't' | help => 'h'

/-- The name behind two dashes. -/
def longName : Parameter → String
  | rom => "rom" | frames => "frames" | stepsPerFrame => "steps-per-frame"
  | dumpCpu => "dump-cpu" | dumpPpu => "dump-ppu" | vectors => "vectors" | trace => "trace"
  | help => "help"

/-- A value has to follow the parameter. -/
def takesValue : Parameter → Bool
  | rom | frames | stepsPerFrame => true
  | dumpCpu | dumpPpu | vectors | trace | help => false

/-- The parameter with a letter, if there is one. -/
def ofLetter? (c : Char) : Option Parameter := all.find? (·.letter == c)

/-- The parameter with a long name, if there is one. Names cannot be cut short. -/
def ofLongName? (name : String) : Option Parameter := all.find? (·.longName == name)

end Parameter

/-! ## Numbers -/

/-- A number in decimal digits and nothing else. -/
def digits? (text : List Char) : Option Nat :=
  if text.isEmpty || text.any (!·.isDigit) then none
  else some (text.foldl (fun n c => 10 * n + (c.toNat - '0'.toNat)) 0)

/-- A count below `2^64`, with or without a plus sign. -/
def frameCount? (text : String) : Option Nat :=
  let digits := match text.toList with
    | '+' :: rest => rest
    | rest => rest
  (digits? digits).filter (· < UInt64.size)

/-- A count below `2^32`, with or without a sign. Zero may be negative. -/
def stepCount? (text : String) : Option Nat :=
  match text.toList with
  | '-' :: rest => (digits? rest).filter (· == 0)
  | '+' :: rest => (digits? rest).filter (· < UInt32.size)
  | rest => (digits? rest).filter (· < UInt32.size)

/-! ## Reading arguments -/

/-- How the arguments end. -/
inductive Ending where
  /-- All of them were read. -/
  | complete
  /-- Help was asked for. -/
  | help
  /-- An argument is out of place. -/
  | misused
deriving DecidableEq

/-- A parameter with its value, which is empty if it takes none. -/
abbrev Setting := Parameter × String

/-- What comes after an argument: the end, or more, and then perhaps a value first. -/
inductive Next where
  | stop (ending : Ending)
  | more (pending : Option Parameter)

/-- The argument cannot be a value. A single dash can. -/
def looksLikeOption (arg : String) : Bool :=
  match arg.toList with
  | '-' :: _ :: _ => true
  | _ => false

/-- Read the letters of one argument. -/
def readLetters : List Char → List Setting × Next
  | [] => ([], .more none)
  | c :: rest =>
    match Parameter.ofLetter? c with
    | none => ([], .stop .misused)
    | some .help => ([], .stop .help)
    | some parameter =>
      if parameter.takesValue then
        match rest with
        | [] => ([], .more (some parameter))
        | '=' :: value => ([(parameter, String.ofList value)], .more none)
        | value => ([(parameter, String.ofList value)], .more none)
      else
        let (settings, next) := readLetters rest
        ((parameter, "") :: settings, next)

/-- Read an argument that begins with two dashes: a name, and a value after the first `=`. -/
def readLong (text : List Char) : List Setting × Next :=
  let name := String.ofList (text.takeWhile (· != '='))
  let value? := match text.dropWhile (· != '=') with
    | [] => none
    | _ :: value => some (String.ofList value)
  match Parameter.ofLongName? name, value? with
  | none, _ => ([], .stop .misused)
  | some parameter, some value =>
    if parameter.takesValue then ([(parameter, value)], .more none) else ([], .stop .misused)
  | some .help, none => ([], .stop .help)
  | some parameter, none =>
    if parameter.takesValue then ([], .more (some parameter)) else ([(parameter, "")], .more none)

/-- Read one argument that is not a value. -/
def readArgument (arg : String) : List Setting × Next :=
  match arg.toList with
  | '-' :: '-' :: text => readLong text
  | '-' :: c :: rest => readLetters (c :: rest)
  | _ => ([], .stop .misused)

/-- Read the arguments that follow, the first of them as the value of `pending`. -/
def readFrom : Option Parameter → List String → List Setting × Ending
  | none, [] => ([], .complete)
  | some _, [] => ([], .misused)
  | some parameter, arg :: rest =>
    if looksLikeOption arg then ([], .misused)
    else
      let (settings, ending) := readFrom none rest
      ((parameter, arg) :: settings, ending)
  | none, arg :: rest =>
    if arg = "--" then ([], if rest.isEmpty then .complete else .misused)
    else match readArgument arg with
      | (settings, .stop ending) => (settings, ending)
      | (settings, .more pending) =>
        let (others, ending) := readFrom pending rest
        (settings ++ others, ending)

/-! ## Options -/

/-- What the program is asked to do. -/
structure Options where
  rom : String
  frames : Nat := 60
  stepsPerFrame : Nat := 10000
  dumpCpu : Bool := false
  dumpPpu : Bool := false
  vectors : Bool := false
  trace : Bool := false
deriving DecidableEq

/-- The value fits its parameter. -/
def Setting.isValid : Setting → Bool
  | (.rom, value) => value != ""
  | (.frames, value) => (frameCount? value).isSome
  | (.stepsPerFrame, value) => (stepCount? value).isSome
  | _ => true

/-- No parameter is given twice and every value fits. -/
def areValid (settings : List Setting) : Bool :=
  (settings.map (·.1)).Nodup && settings.all Setting.isValid

/-- The options that settings describe, if the cartridge is named. -/
def Options.ofSettings? (settings : List Setting) : Option Options :=
  (settings.lookup .rom).map fun rom => {
    rom := rom
    frames := ((settings.lookup .frames).bind frameCount?).getD 60
    stepsPerFrame := ((settings.lookup .stepsPerFrame).bind stepCount?).getD 10000
    dumpCpu := (settings.lookup .dumpCpu).isSome
    dumpPpu := (settings.lookup .dumpPpu).isSome
    vectors := (settings.lookup .vectors).isSome
    trace := (settings.lookup .trace).isSome }

/-- What a command line asks for. -/
inductive Request where
  | run (options : Options)
  | help
  | misused
deriving DecidableEq

/-- Read a command line. A setting before a request for help has to be valid as well. -/
def read (args : List String) : Request :=
  let (settings, ending) := readFrom none args
  if !areValid settings then .misused
  else match ending with
    | .misused => .misused
    | .help => .help
    | .complete => match Options.ofSettings? settings with
      | none => .misused
      | some options => .run options

end Nes.Cli
