/-!
# Version

The version of the library.
-/

namespace BlockTransfer

/-- The version, as major, minor and patch number. -/
def version : String := "0.1.0"

end BlockTransfer
