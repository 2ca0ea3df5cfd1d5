import BlockTransfer.Error

/-!
# Scripted files

A file whose reader follows a script: how many bytes each read may give at most, and at which
positions reading fails once. A read never goes past the position of the next failure.
-/

namespace BlockTransfer.Script

/-- A file being read. -/
structure Source where
  /-- The bytes that have not been read yet. -/
  remaining : Bytes
  /-- The number of bytes read. -/
  position : Nat := 0
  /-- How many bytes a read gives at most, in turn; nothing limits reads if there are none. -/
  sizes : List Nat := []
  /-- The number of reads that succeeded. -/
  reads : Nat := 0
  /-- The positions at which reading fails, in order. -/
  faults : List (Nat × IoError) := []

namespace Source

/-- A file with the given contents, or one whose reading fails. -/
def ofContents (contents : Except IoError Bytes) : Source :=
  match contents with
  | .ok data => { remaining := data }
  | .error e => { remaining := [], faults := [(0, e)] }

/-- The most bytes that the next read gives when `most` are asked for. -/
def limit (source : Source) (most : Nat) : Nat :=
  let bySize :=
    match source.sizes with
    | [] => most
    | sizes => min most (sizes.getD (source.reads % sizes.length) 0)
  match source.faults with
  | [] => bySize
  -- A read that reaches a failure stops short of it.
  | (place, _) :: _ => min bySize (place - source.position)

/-- Gives the reading of at most `most` bytes, or fails if a failure is due. -/
def fetch (source : Source) (most : Nat) : Except IoError Bytes × Source :=
  let give :=
    let data := source.remaining.take (source.limit most)
    (.ok data,
      { source with
        remaining := source.remaining.drop data.length
        position := source.position + data.length
        reads := source.reads + 1 })
  match source.faults with
  | [] => give
  | (place, e) :: faults =>
    if place ≤ source.position then (.error e, { source with faults }) else give

end Source

end BlockTransfer.Script
