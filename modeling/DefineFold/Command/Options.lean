/-
  DefineFold.Command.Options

  The options of the command line. Long options are spelled out in full; short ones may be
  run together, and a value may be attached to either. The value of an option is looked at
  only when the next option begins, so an unknown option behind it is reported first.
-/

import DefineFold.Defines.Table
import DefineFold.Files.Language

namespace DefineFold

/-! ## Verbosity -/

/-- How much a run reports, from the least to the most. -/
inductive Verbosity where
  | quiet
  | normal
  | verbose
  | debug
  | trace
deriving DecidableEq, Repr, Inhabited

namespace Verbosity

/-- The verbosity that the flags ask for. -/
def ofFlags (count : Nat) (quiet : Bool) : Verbosity :=
  if quiet then .quiet
  else
    match count with
    | 0 => .normal
    | 1 => .verbose
    | 2 => .debug
    | _ => .trace

/-- The rank of a verbosity. -/
def rank : Verbosity → Nat
  | .quiet => 0
  | .normal => 1
  | .verbose => 2
  | .debug => 3
  | .trace => 4

/-- The name of a verbosity. -/
def name : Verbosity → String
  | .quiet => "Quiet"
  | .normal => "Normal"
  | .verbose => "Verbose"
  | .debug => "Debug"
  | .trace => "Trace"

end Verbosity

/-! ## Options -/

/-- What the command line asks for. -/
structure Options where
  path : String
  config : Option String
  defines : List String
  outputFile : Option String
  outDir : Option String
  language : Option Language
  noFold : Bool
  allowFalsy : Bool
  legacyOrder : Bool
  summary : Bool
  verbose : Nat
  quiet : Bool
deriving DecidableEq, Repr

namespace Options

/-- The verbosity that is asked for. -/
def verbosity (o : Options) : Verbosity :=
  .ofFlags o.verbose o.quiet

/-- Whether expressions are folded. -/
def fold (o : Options) : Bool :=
  !o.noFold

/-- How candidates are resolved. -/
def resolveOptions (o : Options) : ResolveOptions :=
  ⟨if o.legacyOrder then .enumeration else .longestFirst, o.allowFalsy⟩

/-- The language of a file: the one asked for, or the one that its extension tells. -/
def languageFor? (o : Options) (path : String) : Option Language :=
  o.language.or (Language.ofPath? path)

end Options

/-- Why a command line is refused. -/
inductive UsageFault where
  | missingRequired
  | invalidValue
  | unknownArgument
  | repeated
  | tooManyValues
  | help
deriving DecidableEq, Repr

namespace UsageFault

/-- The code with which a run ends that cannot begin. To ask for help is no failure. -/
def exitCode : UsageFault → Nat
  | .help => 0
  | _ => 2

/-- The wording of a fault. -/
def message : UsageFault → String
  | .missingRequired => "the option --path is required"
  | .invalidValue => "the value of an option is missing or not valid"
  | .unknownArgument => "unexpected argument"
  | .repeated => "an option is given more than once"
  | .tooManyValues => "a flag takes no value"
  | .help => ""

end UsageFault

/-- What the program says about its options. -/
def usage : String :=
  "Usage: define-fold [OPTIONS] --path <PATH>\n\n"
    ++ "Options:\n"
    ++ "      --path <PATH>         File or directory to work on\n"
    ++ "      --config <FILE>       Defines (JSON or YAML)\n"
    ++ "  -D, --define <KEY=VALUE>  One more define, before those of the file\n"
    ++ "  -O, --output-file <FILE>  Output file for a single file\n"
    ++ "      --out-dir <DIR>       Output directory for a directory\n"
    ++ "  -l, --language <NAME>     js, ts or tsx\n"
    ++ "      --no-fold             Do not fold expressions around substitutions\n"
    ++ "      --allow-falsy         Substitute false, zero, empty and null values too\n"
    ++ "      --legacy-order        Try the paths in the order of enumeration\n"
    ++ "      --summary             Print a JSON summary of every edit\n"
    ++ "  -v, --verbose...          Report more\n"
    ++ "  -q, --quiet               Report errors only\n"
    ++ "  -h, --help                Print this text\n"

/-! ## Reading the command line -/

/-- An option by what it sets. -/
inductive Switch where
  | path
  | config
  | define
  | outputFile
  | outDir
  | language
  | noFold
  | allowFalsy
  | legacyOrder
  | summary
  | verbose
  | quiet
  | help
deriving DecidableEq, Repr

namespace Switch

/-- Whether the option takes a value. -/
def takesValue : Switch → Bool
  | .path | .config | .define | .outputFile | .outDir | .language => true
  | _ => false

/-- The option with a long name. -/
def ofLong? (name : String) : Option Switch :=
  ([("path", .path), ("config", .config), ("define", .define), ("output-file", .outputFile),
    ("out-dir", .outDir), ("language", .language), ("no-fold", .noFold),
    ("allow-falsy", .allowFalsy), ("legacy-order", .legacyOrder), ("summary", .summary),
    ("verbose", .verbose), ("quiet", .quiet), ("help", .help)].find?
      fun (entry : String × Switch) => entry.1 == name).map (·.2)

/-- The option with a short name. -/
def ofShort? : Char → Option Switch
  | 'D' => some .define
  | 'O' => some .outputFile
  | 'l' => some .language
  | 'v' => some .verbose
  | 'q' => some .quiet
  | 'h' => some .help
  | _ => none

end Switch

/-- The languages that can be asked for. -/
def languageOption? : String → Option Language
  | "js" => some .javaScript
  | "ts" => some .typeScript
  | "tsx" => some .tsx
  | _ => none

/-- What has been read of a command line. -/
structure Reading where
  path : Option String := none
  config : Option String := none
  defines : List String := []
  outputFile : Option String := none
  outDir : Option String := none
  language : Option Language := none
  noFold : Bool := false
  allowFalsy : Bool := false
  legacyOrder : Bool := false
  summary : Bool := false
  verbose : Nat := 0
  quiet : Bool := false
  /-- An option whose value has not been looked at yet. -/
  pending : Option (Switch × Option String) := none
  /-- Whether the next argument is the value of the pending option. -/
  awaiting : Bool := false
  /-- Whether the end of the options has been marked. -/
  ended : Bool := false

namespace Reading

/-- The largest count of a repeated flag. -/
def countLimit : Nat :=
  255

/-- A path, which must not be empty and must not have been given before. -/
def once (old : Option String) (value : String) : Except UsageFault (Option String) :=
  if old.isSome then .error .repeated
  else if value = "" then .error .invalidValue
  else .ok (some value)

/-- A flag, which must not have been given before. -/
def flag (old : Bool) : Except UsageFault Bool :=
  if old then .error .repeated else .ok true

/-- Takes an option with its value into account. -/
def assign (r : Reading) (switch : Switch) (value : Option String) : Except UsageFault Reading :=
  match switch, value with
  | .path, some v => do return { r with path := ← once r.path v }
  | .config, some v => do return { r with config := ← once r.config v }
  | .define, some v => .ok { r with defines := r.defines ++ [v] }
  | .outputFile, some v => do return { r with outputFile := ← once r.outputFile v }
  | .outDir, some v => do return { r with outDir := ← once r.outDir v }
  | .language, some v =>
    if r.language.isSome then .error .repeated
    else
      match languageOption? v with
      | some language => .ok { r with language := some language }
      | none => .error .invalidValue
  | .noFold, _ => do return { r with noFold := ← flag r.noFold }
  | .allowFalsy, _ => do return { r with allowFalsy := ← flag r.allowFalsy }
  | .legacyOrder, _ => do return { r with legacyOrder := ← flag r.legacyOrder }
  | .summary, _ => do return { r with summary := ← flag r.summary }
  | .verbose, _ => .ok { r with verbose := min (r.verbose + 1) countLimit }
  | .quiet, _ => do return { r with quiet := ← flag r.quiet }
  | .help, _ => .error .help
  | _, none => .error .invalidValue

/-- Takes the pending option into account. -/
def settle (r : Reading) : Except UsageFault Reading :=
  match r.pending with
  | none => .ok r
  | some (switch, value) => { r with pending := none, awaiting := false }.assign switch value

/-- An option whose value, if it takes one, is attached to it or still to come. -/
def option (r : Reading) (switch : Switch) (attached : Option String) :
    Except UsageFault Reading := do
  let r ← r.settle
  if switch.takesValue ∧ attached.isNone then
    return { r with pending := some (switch, none), awaiting := true }
  else r.assign switch attached

/-- Short options in a row. The rest behind one that takes a value is its value, without an
    equals sign in front. -/
def cluster (r : Reading) : List Char → Except UsageFault Reading
  | [] => .ok r
  | c :: rest =>
    match Switch.ofShort? c with
    | none => .error .unknownArgument
    | some switch =>
      if switch.takesValue then
        match rest with
        | [] => r.option switch none
        | '=' :: value => r.option switch (some (String.ofList value))
        | value => r.option switch (some (String.ofList value))
      else
        match r.option switch none with
        | .ok r => r.cluster rest
        | .error e => .error e

/-- A long option without its dashes. -/
def long (r : Reading) (text : List Char) : Except UsageFault Reading :=
  match splitEquals? [] text with
  | none =>
    match Switch.ofLong? (String.ofList text) with
    | none => .error .unknownArgument
    | some switch => r.option switch none
  | some (name, value) =>
    match Switch.ofLong? (String.ofList name) with
    | none => .error .unknownArgument
    | some switch =>
      if switch.takesValue then r.option switch (some (String.ofList value))
      else .error .tooManyValues

/-- Any other argument, which is right only as the value of an option. -/
def value (r : Reading) (text : String) : Except UsageFault Reading :=
  match r.awaiting, r.pending with
  | true, some (switch, _) => .ok { r with pending := some (switch, some text), awaiting := false }
  | _, _ => .error .unknownArgument

/-- One argument. -/
def argument (r : Reading) (text : String) : Except UsageFault Reading :=
  if r.ended then .error .unknownArgument
  else
    match text.toList with
    | ['-', '-'] => .ok { r with ended := true }
    | '-' :: '-' :: rest => r.long rest
    | '-' :: c :: rest => r.cluster (c :: rest)
    | _ => r.value text

/-- All arguments in a row. -/
def arguments (r : Reading) : List String → Except UsageFault Reading
  | [] => .ok r
  | text :: rest =>
    match r.argument text with
    | .ok r => r.arguments rest
    | .error e => .error e

/-- The options that have been read, if the required one is among them. -/
def finish (r : Reading) : Except UsageFault Options := do
  let r ← r.settle
  match r.path with
  | none => .error .missingRequired
  | some path =>
    .ok ⟨path, r.config, r.defines, r.outputFile, r.outDir, r.language, r.noFold, r.allowFalsy,
      r.legacyOrder, r.summary, r.verbose, r.quiet⟩

end Reading

/-- The options of a command line, the name of the program apart. -/
def Options.parse (args : List String) : Except UsageFault Options := do
  let r ← ({} : Reading).arguments args
  r.finish

end DefineFold
