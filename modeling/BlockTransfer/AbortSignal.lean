/-!
# Abort signals

Flags that ask a running transfer to stop. A flag has any number of handles, and all handles of
one flag show the same.
-/

namespace BlockTransfer

/-- Flags, and the handles that stand for them. -/
structure AbortSignals where
  /-- Whether each flag is raised. -/
  raised : List Bool
  /-- The flag of each handle. -/
  flagOf : List Nat

namespace AbortSignals

/-- One lowered flag with one handle. -/
def new : AbortSignals := ⟨[false], [0]⟩

/-- Adds a lowered flag with a handle. -/
def add (s : AbortSignals) : AbortSignals :=
  ⟨s.raised ++ [false], s.flagOf ++ [s.raised.length]⟩

/-- Adds a handle for the flag of another handle. -/
def clone (s : AbortSignals) (handle : Nat) : AbortSignals :=
  match s.flagOf[handle]? with
  | none => s
  | some flag => { s with flagOf := s.flagOf ++ [flag] }

/-- Raises or lowers the flag of a handle. -/
def set (s : AbortSignals) (handle : Nat) (value : Bool) : AbortSignals :=
  match s.flagOf[handle]? with
  | none => s
  | some flag => { s with raised := s.raised.set flag value }

/-- Whether the flag of a handle is raised. -/
def isRequested (s : AbortSignals) (handle : Nat) : Bool :=
  match s.flagOf[handle]? with
  | none => false
  | some flag => s.raised.getD flag false

/-- What all handles show, in order. -/
def view (s : AbortSignals) : List Bool :=
  (List.range s.flagOf.length).map s.isRequested

end AbortSignals

end BlockTransfer
