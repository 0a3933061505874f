/-!
# Words on a command line

The words after a command are options with their values and operands. A value stands in the word of
its option after an equals sign, or in the next word, which then may not look like an option. After
two dashes by themselves all words are operands. Reading stops at the first word that is no use.
-/

namespace Concord

/-- Why reading a command line stops before there is a command to carry out. -/
inductive Stop where
  /-- The words make no command. -/
  | misuse
  /-- Help is asked for. -/
  | help
  /-- The version is asked for. -/
  | version
deriving DecidableEq, Repr

/-- The words after a command, sorted. -/
structure Words where
  /-- The options with their values, each option only once. -/
  options : List (String × String) := []
  /-- The other words in order. -/
  operands : List String := []
deriving DecidableEq, Repr

namespace Words

/-- What a word by itself is. -/
inductive Kind where
  /-- A word that is not about options. -/
  | operand
  /-- The end of all options. -/
  | divider
  /-- An option, with its value if the word has it. -/
  | option (name : String) (value : Option String)
  /-- Letters after a single dash, the first of them apart. -/
  | letters (first : Char)
deriving DecidableEq, Repr

/-- The kind of a word. A single dash is an operand. -/
def kindOf (word : String) : Kind :=
  match word.toList with
  | ['-', '-'] => .divider
  | '-' :: '-' :: rest =>
    match rest.dropWhile (· ≠ '=') with
    | _ :: value => .option (String.ofList (rest.takeWhile (· ≠ '='))) (some (String.ofList value))
    | [] => .option (String.ofList rest) none
  | '-' :: c :: _ => .letters c
  | _ => .operand

/-- The value of an option. -/
def value? (w : Words) (name : String) : Option String := w.options.lookup name

/-- Words with one more option; an option may not be given twice. -/
def add (w : Words) (name value : String) : Except Stop Words :=
  if (w.value? name).isSome then .error .misuse
  else .ok { w with options := w.options ++ [(name, value)] }

/-- Words with more operands. -/
def addOperands (w : Words) (more : List String) : Words :=
  { w with operands := w.operands ++ more }

/-- The words read after those in `w`; `known` are the names of the options there are. -/
def read (known : List String) : Words → List String → Except Stop Words
  | w, [] => .ok w
  | w, word :: rest =>
    match kindOf word with
    | .operand => read known (w.addOperands [word]) rest
    | .divider => .ok (w.addOperands rest)
    | .letters c => .error (if c = 'h' then .help else .misuse)
    | .option name value =>
      if known.contains name then
        match value, rest with
        | some v, rest => do read known (← w.add name v) rest
        | none, v :: rest =>
          if kindOf v = .operand then do read known (← w.add name v) rest else .error .misuse
        | none, [] => .error .misuse
      else if name = "help" && value.isNone then .error .help
      else .error .misuse

end Words

end Concord
