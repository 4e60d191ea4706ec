/-!
# Log records
-/

namespace CtapEnroll.Log

inductive Level
  | trace
  | debug
  | info
  deriving DecidableEq, Repr

def Level.name : Level → String
  | trace => "TRACE"
  | debug => "DEBUG"
  | info => "INFO"

structure Record where
  level : Level
  message : String
  deriving DecidableEq, Repr

def Record.display (r : Record) : String := r.level.name ++ " " ++ r.message

end CtapEnroll.Log
