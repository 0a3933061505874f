import Concord.Command.Words

/-!
# Commands

A command line names one of three commands. Two of them inspect files and share most of their
options. One option, the level of the log, may stand before the command as well as after it; it has
no bearing on what is reported.
-/

namespace Concord

/-- The options of every command that inspects files. -/
structure InspectOptions where
  /-- Where to look for the repository. -/
  start : Option String := none
  /-- How reports are shown. -/
  output : Option String := none
  /-- A file with configuration to layer over what is found. -/
  lintConfig : Option String := none
  /-- A file with the catalog of rules. -/
  catalog : Option String := none
deriving DecidableEq, Repr

/-- A command. -/
inductive Command where
  /-- Show the version. -/
  | version
  /-- Report the formatter options of files. `explicit` and `fallback` are written as JSON. -/
  | options (files : List String) (common : InspectOptions)
    (explicit fallback order : Option String)
  /-- Report the fixing pass over one file. -/
  | fixConfig (file : String) (common : InspectOptions)
deriving DecidableEq, Repr

namespace Command

/-- The name of the option for the level of the log. -/
def logOption : String := "log-level"

/-- The names of the options of every command that inspects files. -/
def inspectNames : List String := ["repo-root", "output", "lint-config", "catalog", logOption]

/-- The names of the options of the command for formatter options. -/
def optionsNames : List String := ["options", "fallback", "order"] ++ inspectNames

/-- The shared options among words. -/
def inspectOptions (w : Words) : InspectOptions where
  start := w.value? "repo-root"
  output := w.value? "output"
  lintConfig := w.value? "lint-config"
  catalog := w.value? "catalog"

/-- The command with a name, read from the words after the name. -/
def ofWords? (name : String) (words : List String) : Option (Except Stop Command) :=
  match name with
  | "version" => some do
    let w ← Words.read [logOption] {} words
    if w.operands.isEmpty then return .version else throw .misuse
  | "options" => some do
    let w ← Words.read optionsNames {} words
    return .options w.operands (inspectOptions w) (w.value? "options") (w.value? "fallback")
      (w.value? "order")
  | "fix-config" => some do
    let w ← Words.read inspectNames {} words
    match w.operands with
    | [file] => return .fixConfig file (inspectOptions w)
    | _ => throw .misuse
  | "help" => some (.error .help)
  | _ => none

/-- Why a word that comes before any command ends the reading. -/
def stopAt (word : String) : Stop :=
  match Words.kindOf word with
  | .letters 'V' => .version
  | .option "version" none => .version
  | .letters 'h' => .help
  | .option "help" none => .help
  | _ => .misuse

/-- The command on a line; `logged` says whether the level of the log has been given already. -/
def readLine (logged : Bool) : List String → Except Stop Command
  | [] => .error .misuse
  | word :: rest =>
    match Words.kindOf word, rest with
    | .option "log-level" none, level :: rest =>
      if logged || Words.kindOf level ≠ .operand then .error .misuse else readLine true rest
    | .option "log-level" (some _), rest => if logged then .error .misuse else readLine true rest
    | _, rest => (ofWords? word rest).getD (.error (stopAt word))

/-- The command that the words of a line make. -/
def read (words : List String) : Except Stop Command := readLine false words

end Command

end Concord
