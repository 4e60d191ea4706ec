import CtapEnroll.Version
/-!
# Configuration

Limits and defaults of a client.
-/

namespace CtapEnroll

structure Config where
  /-- The time, in milliseconds, for each sample of an enrollment that sets none itself. -/
  defaultTimeout : Option UInt32 := none
  /-- The longest name of a template, in bytes. -/
  maxNameLength : Option Nat := none
  requiredFirmware : Option Version := none
  deriving DecidableEq, Repr

end CtapEnroll
