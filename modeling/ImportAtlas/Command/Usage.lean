import ImportAtlas.Settings.Basic

/-!
# Wrong usage

What can be wrong with the arguments of a command, with its settings included.
-/

namespace ImportAtlas.Command

inductive UsageError where
  | missingCommand
  | noSuchCommand (name : String)
  | noSuchOption (name : String)
  | missingValue (option : String)
  | unexpectedValue (option : String)
  | unexpectedArgument (text : String)
  /-- The value of an option is no number that it takes. -/
  | badNumber (option value : String)
  | notADirectory (path : String)
  | badFormat
  | badSettings (e : SettingsError)
  deriving DecidableEq, Repr

def UsageError.message : UsageError → String
  | .missingCommand => "Missing command."
  | .noSuchCommand name => "No such command '" ++ name ++ "'."
  | .noSuchOption name => "No such option: " ++ name
  | .missingValue option => "Option '--" ++ option ++ "' requires an argument."
  | .unexpectedValue option => "Option '--" ++ option ++ "' does not take a value."
  | .unexpectedArgument text => "Got unexpected extra argument (" ++ text ++ ")"
  | .badNumber option value => "Invalid value for '--" ++ option ++ "': '" ++ value ++ "'"
  | .notADirectory path => "Directory '" ++ path ++ "' does not exist."
  | .badFormat => "Format must be one of: dot, mermaid"
  | .badSettings e => e.message

end ImportAtlas.Command
