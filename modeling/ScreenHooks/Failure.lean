/-
Everything that can end an operation.

A failure shows a message; the causes behind it are shown only in its full
message.
-/
import ScreenHooks.Disk.Access
import ScreenHooks.Error

namespace ScreenHooks

/-- A failed operation. -/
inductive Failure where
  | run (error : RunError)
  | file (error : FileError)
  deriving DecidableEq

namespace Failure

/-- What failed, without the causes. -/
def message : Failure → String
  | run error => error.message
  | file error => error.message

/-- What failed, and why. -/
def fullMessage : Failure → String
  | run error => error.message ++ ((error.cause?.map (": " ++ ·)).getD "")
  | file error => error.fullMessage

end Failure

end ScreenHooks
