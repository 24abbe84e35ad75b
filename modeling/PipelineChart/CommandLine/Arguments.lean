import PipelineChart.Chart.Document

/-!
Reading the command line. Words are read from left to right. An option that takes a value has it
attached, or in the next word unless that begins with a hyphen; whether the value is right is told
only when the option is settled, at the next word that is no value or at the end. Behind `--` all
words are positional.
-/

namespace PipelineChart

structure Arguments where
  input : String
  output : String
  config : Option String
  logLevel : String
  format : DocumentFormat
  pretty : Bool
  strict : Bool
  deriving DecidableEq

inductive Refusal where
  | missingInput
  | unknown
  | invalidValue
  | repeated
  | surplusValue
  | help (long : Bool)
  | version
  deriving DecidableEq

namespace Arguments

inductive ValueOption where
  | output
  | config
  | logLevel
  | format
  deriving DecidableEq

inductive Flag where
  | pretty
  | strict
  deriving DecidableEq

inductive Name where
  | value (option : ValueOption)
  | flag (flag : Flag)
  | refusal (refusal : Refusal)

def longName? : String → Option Name
  | "output" => some (.value .output)
  | "config" => some (.value .config)
  | "log-level" => some (.value .logLevel)
  | "format" => some (.value .format)
  | "pretty" => some (.flag .pretty)
  | "strict" => some (.flag .strict)
  | "help" => some (.refusal (.help true))
  | "version" => some (.refusal .version)
  | _ => none

def shortName? : Char → Option Name
  | 'o' => some (.value .output)
  | 'c' => some (.value .config)
  | 'f' => some (.value .format)
  | 'h' => some (.refusal (.help false))
  | 'V' => some (.refusal .version)
  | _ => none

/-- What has been read; `pending` is an option that is not settled yet. -/
structure Progress where
  values : List (ValueOption × String)
  flags : List Flag
  input : Option String
  pending : Option (ValueOption × Option String)
  positionalOnly : Bool

namespace Progress

def start : Progress := ⟨[], [], none, none, false⟩

def value? (progress : Progress) (option : ValueOption) : Option String :=
  progress.values.lookup option

def accepts (option : ValueOption) (value : String) : Bool :=
  match option with
  | .format => (DocumentFormat.ofText? value).isSome
  | _ => true

def settle (progress : Progress) : Except Refusal Progress :=
  match progress.pending with
  | none => .ok progress
  | some (_, none) => .error .invalidValue
  | some (option, some value) =>
      if (progress.value? option).isSome then .error .repeated
      else if accepts option value then
        .ok { progress with values := (option, value) :: progress.values, pending := none }
      else .error .invalidValue

def await (progress : Progress) (option : ValueOption) (attached : Option String) :
    Except Refusal Progress := do
  let progress ← progress.settle
  let waiting := { progress with pending := some (option, attached) }
  if attached.isSome then waiting.settle else return waiting

def raise (progress : Progress) (flag : Flag) : Except Refusal Progress := do
  let progress ← progress.settle
  if flag ∈ progress.flags then throw .repeated
  else return { progress with flags := flag :: progress.flags }

def refuse (progress : Progress) (refusal : Refusal) : Except Refusal Progress := do
  let _ ← progress.settle
  throw refusal

def positional (progress : Progress) (word : String) : Except Refusal Progress :=
  match progress.input with
  | some _ => .error .unknown
  | none => do
      let progress ← progress.settle
      return { progress with input := some word }

/-- A word behind two hyphens: its name ends where a value is attached. -/
def long (progress : Progress) (text : List Char) : Except Refusal Progress :=
  let (name, rest) := text.span fun char => char != '='
  let attached := match rest with
    | [] => none
    | _ :: value => some (String.ofList value)
  match longName? (String.ofList name), attached with
  | none, _ => .error .unknown
  | some (.value option), attached => progress.await option attached
  | some (.flag flag), none => progress.raise flag
  | some (.refusal refusal), none => progress.refuse refusal
  | some _, some _ => .error .surplusValue

/-- Letters behind one hyphen. The rest of the word is the value of the first option that takes
one. -/
def short (progress : Progress) : List Char → Except Refusal Progress
  | [] => .ok progress
  | letter :: rest =>
      match shortName? letter with
      | none => .error .unknown
      | some (.value option) =>
          match rest with
          | [] => progress.await option none
          | '=' :: value => progress.await option (some (String.ofList value))
          | value => progress.await option (some (String.ofList value))
      | some (.flag flag) => do (← progress.raise flag).short rest
      | some (.refusal refusal) => progress.refuse refusal

def plain (progress : Progress) (word : String) : Except Refusal Progress :=
  match progress.pending with
  | some (option, none) => .ok { progress with pending := some (option, some word) }
  | _ => progress.positional word

def step (progress : Progress) (word : String) : Except Refusal Progress :=
  if progress.positionalOnly then progress.positional word
  else
    match word.toList with
    | ['-', '-'] => .ok { progress with positionalOnly := true }
    | '-' :: '-' :: text => progress.long text
    | ['-'] => progress.plain word
    | '-' :: letters => progress.short letters
    | _ => progress.plain word

def finish (progress : Progress) : Except Refusal Arguments := do
  let progress ← progress.settle
  match progress.input with
  | none => throw .missingInput
  | some input =>
      return {
        input
        output := (progress.value? .output).getD "out.json"
        config := progress.value? .config
        logLevel := (progress.value? .logLevel).getD "info"
        format := ((progress.value? .format).bind DocumentFormat.ofText?).getD .flow
        pretty := decide (.pretty ∈ progress.flags)
        strict := decide (.strict ∈ progress.flags) }

end Progress

def parse (words : List String) : Except Refusal Arguments := do
  let progress ← words.foldlM Progress.step .start
  progress.finish

def logLevels : List String := ["off", "error", "warn", "info", "debug", "trace"]

def notice (arguments : Arguments) : Option String :=
  if String.ofList (arguments.logLevel.toList.map Char.toLower) ∈ logLevels then none
  else some ("Invalid log level: " ++ arguments.logLevel ++ ". Using 'warn' instead.")

end Arguments

end PipelineChart
