import ImportAtlas.Command.Usage

/-!
# Arguments of a command

Options are written `--name value`, `--name=value`, `-n value` or `-nvalue`; short flags may stand
together behind one dash. A value is taken as it stands, even if it looks like an option. `--` ends
the options, and a single dash is no option.
-/

namespace ImportAtlas.Command

structure OptionSpec where
  name : String
  short : Option Char
  takesValue : Bool
  deriving DecidableEq, Repr

/-- What was given: options in order, a flag with an empty value, and the other arguments. -/
structure Arguments where
  options : List (String × String)
  others : List String
  deriving DecidableEq, Repr

/-- What one argument gives, and the option that still waits for its value. -/
structure Reading where
  given : List (String × String)
  waiting : Option String
  deriving DecidableEq, Repr

namespace Arguments

/-- The value given last for an option. -/
def value? (a : Arguments) (name : String) : Option String := a.options.reverse.lookup name

def has (a : Arguments) (name : String) : Bool := (a.value? name).isSome

def isOption (s : String) : Bool := Text.beginsWith s "-" && s != "-"

def short (specs : List OptionSpec) : List Char → Except UsageError Reading
  | [] => .ok ⟨[], none⟩
  | c :: cs =>
    match specs.find? (·.short == some c) with
    | none => .error (.noSuchOption (String.ofList ['-', c]))
    | some o =>
      if o.takesValue then
        if cs.isEmpty then .ok ⟨[], some o.name⟩ else .ok ⟨[(o.name, String.ofList cs)], none⟩
      else do
        let r ← short specs cs
        return ⟨(o.name, "") :: r.given, r.waiting⟩

def long (specs : List OptionSpec) (cs : List Char) : Except UsageError Reading :=
  let name := String.ofList (cs.takeWhile (· != '='))
  match specs.find? (·.name == name), cs.dropWhile (· != '=') with
  | none, _ => .error (.noSuchOption ("--" ++ name))
  | some o, _ :: value =>
    if o.takesValue then .ok ⟨[(o.name, String.ofList value)], none⟩
    else .error (.unexpectedValue o.name)
  | some o, [] => if o.takesValue then .ok ⟨[], some o.name⟩ else .ok ⟨[(o.name, "")], none⟩

def optionsIn (specs : List OptionSpec) (s : String) : Except UsageError Reading :=
  match s.toList with
  | '-' :: '-' :: cs => long specs cs
  | _ :: cs => short specs cs
  | [] => .ok ⟨[], none⟩

def addOptions (given : List (String × String)) (a : Arguments) : Arguments :=
  { a with options := given ++ a.options }

/-- Reads arguments. Unless options may be `mixed` with other arguments, the first of those ends
the options. -/
def read (specs : List OptionSpec) (mixed : Bool) : List String → Except UsageError Arguments
  | [] => .ok ⟨[], []⟩
  | s :: rest =>
    if s = "--" then .ok ⟨[], rest⟩
    else if isOption s then
      match optionsIn specs s, rest with
      | .error e, _ => .error e
      | .ok ⟨given, none⟩, rest => (read specs mixed rest).map (addOptions given)
      | .ok ⟨_, some name⟩, [] => .error (.missingValue name)
      | .ok ⟨given, some name⟩, value :: rest =>
        (read specs mixed rest).map (addOptions (given ++ [(name, value)]))
    else if mixed then
      (read specs mixed rest).map fun a => { a with others := s :: a.others }
    else .ok ⟨[], s :: rest⟩
termination_by args => args.length

end Arguments

end ImportAtlas.Command
