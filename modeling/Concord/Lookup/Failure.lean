import Concord.Json.Decode
import Concord.Path.Basic

/-!
# Failures of configuration look-up

A configuration file may be impossible to read, or it may be read and make no sense. Look-ups report
either with the file concerned; callers that only need defaults swallow both with
`Except.orDefault`.
-/

namespace Concord

/-- Why a file cannot be read as text. -/
inductive ReadFailure where
  /-- There is nothing at the path. -/
  | notFound
  /-- The path leads to a directory. -/
  | isDirectory
  /-- The path goes through something that is not a directory. -/
  | notADirectory
  /-- The bytes are not UTF-8. -/
  | notText
deriving DecidableEq, Repr

/-- The words for a reason. -/
def ReadFailure.message : ReadFailure → String
  | .notFound => "No such file or directory (os error 2)"
  | .isDirectory => "Is a directory (os error 21)"
  | .notADirectory => "Not a directory (os error 20)"
  | .notText => "stream did not contain valid UTF-8"

/-- Why the text of a file makes no sense. -/
inductive ParseFailure where
  /-- The text is not a document of its format. -/
  | malformed
  /-- The document does not describe what it should. -/
  | refused (cause : DecodeError)

/-- What there is to say about it, if there are words for it. -/
def ParseFailure.message? : ParseFailure → Option String
  | .malformed => none
  | .refused cause => cause.message?

/-- Why a look-up of configuration failed. -/
inductive LookupFailure where
  /-- A file could not be read. -/
  | read (path : Path) (reason : ReadFailure)
  /-- A file made no sense. -/
  | parse (path : Path) (reason : ParseFailure)

/-- The words for a failed look-up. -/
def LookupFailure.message : LookupFailure → String
  | .read path reason => "failed to read " ++ path.text ++ ": " ++ reason.message
  | .parse path reason =>
    "failed to parse " ++ path.text ++ ((reason.message?.map (": " ++ ·)).getD "")

/-- The result of a look-up, or a default in place of a failure. -/
def orDefault {ε α : Type} [Inhabited α] : Except ε α → α
  | .ok a => a
  | .error _ => default

end Concord
