/-!
# Bytes

The common currency of the library: finite byte strings, as lists.
-/

namespace BlockTransfer

/-- A finite string of bytes. -/
abbrev Bytes := List UInt8

/-- The exclusive or of all bytes: the longitudinal check. -/
def Bytes.xorAll (data : Bytes) : UInt8 :=
  data.foldl (· ^^^ ·) 0

/-- The sum of all bytes modulo 256. -/
def Bytes.sumAll (data : Bytes) : UInt8 :=
  data.foldl (· + ·) 0

end BlockTransfer
