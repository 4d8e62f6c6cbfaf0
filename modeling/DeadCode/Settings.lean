import DeadCode.Decimal.Numeral
import DeadCode.Decimal.Shortest
import DeadCode.EnvFile
import DeadCode.Grammar

/-!
Settings, read from the environment each time they are asked for. `load` merges an environment file, whose
variables stay, and then checks the settings that have a restricted range.
-/

namespace DeadCode

inductive SettingsError where
  | envFile (fault : EnvFile.Fault)
  | numeral (e : NumeralError)
  | maxPasses (given : Int)
  | timeout (given : Double)
  | grammar (given : String)
  | flag (key given : String)
  deriving DecidableEq

def SettingsError.message : SettingsError → String
  | .envFile fault => fault.message
  | .numeral e => e.message
  | .maxPasses given => s!"JSCLEAN_MAX_PASSES must be at least 1, got {given}"
  | .timeout given => "JSCLEAN_FORMAT_TIMEOUT must be positive, got " ++ given.text
  | .grammar given =>
    "JSCLEAN_GRAMMAR must be auto, tsx, typescript or javascript, got " ++ Text.quoted given
  | .flag key given => key ++ " must be a boolean (true/false), got " ++ Text.quoted given

namespace Settings

def get (env : Environment) (key fallback : String) : String := (env.get? key).getD fallback

def flag (env : Environment) (key : String) (fallback : Bool) : Except SettingsError Bool :=
  match env.get? key with
  | none => .ok fallback
  | some raw =>
    let word := Text.lower (Text.strip raw)
    if word.isEmpty then .ok fallback
    else if ["1", "true", "yes", "on"].contains word then .ok true
    else if ["0", "false", "no", "off"].contains word then .ok false
    else .error (.flag key raw)

def outputSuffix (env : Environment) : String := get env "JSCLEAN_OUTPUT_SUFFIX" ".cleaned"

def formatOutput (env : Environment) : Except SettingsError Bool := flag env "JSCLEAN_FORMAT" true

def formatterCommand (env : Environment) : String := get env "JSCLEAN_PRETTIER_CMD" "npx --yes prettier"

def formatTimeout (env : Environment) : Except SettingsError Double :=
  (Numeral.readDouble (get env "JSCLEAN_FORMAT_TIMEOUT" "60")).mapError .numeral

def untilStable (env : Environment) : Except SettingsError Bool := flag env "JSCLEAN_UNTIL_STABLE" false

def maxPasses (env : Environment) : Except SettingsError Int :=
  (Numeral.readInt (get env "JSCLEAN_MAX_PASSES" "10")).mapError .numeral

def grammar (env : Environment) : String := Text.lower (get env "JSCLEAN_GRAMMAR" Grammar.auto)

def validate (env : Environment) : Except SettingsError Unit := do
  let passes ← maxPasses env
  if passes < 1 then throw (.maxPasses passes)
  let timeout ← formatTimeout env
  if timeout.isNonpositive then throw (.timeout timeout)
  let grammar := grammar env
  unless ["auto", "tsx", "typescript", "javascript"].contains grammar do throw (.grammar grammar)

/-- The environment with the file merged into it, and whether the settings hold there. -/
def load (read : EnvFile.Reader) (envFile : Option String) (env : Environment) :
    Environment × Except SettingsError Unit :=
  match envFile with
  | none => (env, validate env)
  | some text =>
    match EnvFile.load read text env with
    | (env, none) => (env, validate env)
    | (env, some fault) => (env, .error (.envFile fault))

end Settings
end DeadCode
