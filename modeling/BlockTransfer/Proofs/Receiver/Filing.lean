import BlockTransfer.Proofs.Contents

/-!
# What a receiver keeps of a file

Between two blocks of a file a receiver keeps the header, the number of bytes stored, the payload
that is held back and the number of the next block. All of it is a function of the header and the
payloads accepted so far.

## Main definitions

* `Receiver.Filing`: a receiver keeps what belongs to a header and some payloads.

## Main results

* `Receiver.Filing.begun`, `Receiver.Filing.taken`, `Receiver.Filing.counted`: it does so from the
  begin of a file on, and after each block.
-/

namespace BlockTransfer.Receiver

/-- A receiver keeps what belongs to a file with the given header and payloads, of which `count`
blocks have been counted. -/
structure Filing (header : Option FileHeader) (payloads : List Bytes) (count : Nat)
    (s : Receiver) : Prop where
  header_eq : s.job.header = header
  delivered_eq : s.job.delivered = (stored (declaredLength header) payloads).length
  held_eq : s.job.held = heldBack (declaredLength header) payloads
  number_eq : s.session.blockNumber = UInt8.ofNat (count + 1)
  count_eq : s.session.fileBlocks = count

/-- What is stored for the next payload, and what is kept when that has been done. -/
structure Taken (header : Option FileHeader) (payloads : List Bytes) (payload : Bytes)
    (count : Nat) (data : Bytes) (s : Receiver) : Prop where
  stored : Receiver.stored (declaredLength header) (payloads ++ [payload]) =
    Receiver.stored (declaredLength header) payloads ++ data
  filing : Filing header (payloads ++ [payload]) count
    { s with job := { s.job with delivered := s.job.delivered + data.length } }

variable {header : Option FileHeader} {payloads : List Bytes} {count : Nat} {s : Receiver}

theorem Filing.declared_eq (h : Filing header payloads count s) :
    declared s = declaredLength header := by
  rw [declared, h.header_eq]
  rfl

@[simp]
theorem stored_nil (length? : Option Nat) : stored length? [] = [] := by
  cases length? <;> simp [stored]

@[simp]
theorem heldBack_nil (length? : Option Nat) : heldBack length? [] = none := by
  cases length? <;> rfl

/-- A receiver that has begun a file. -/
def begun (s : Receiver) (header : Option FileHeader) : Receiver :=
  let s := { s with
    job := { s.job with header, delivered := 0, held := none, endSeen := false } }
  s.mapSession fun session =>
    (session.beginFile (header.map FileHeader.name) (declared s)).enter .exchangingBlocks

/-- A file that begins is announced to the sink. -/
theorem begin_eq (s : Receiver) (header : Option FileHeader) (first : Option Incoming) :
    begin s header first = .openFile header fun reply moment =>
      match reply with
      | .error e => { begun s header with moment }.fail (.file e)
      | .ok () => { begun s header with moment }.goto (.nextBlock first) :=
  rfl

/-- A receiver that has begun a file has no payloads of it yet. -/
theorem Filing.begun (s : Receiver) (header : Option FileHeader) :
    Filing header [] 0 (begun s header) where
  header_eq := rfl
  delivered_eq := by
    rw [stored_nil]
    rfl
  held_eq := by
    rw [heldBack_nil]
    rfl
  number_eq := rfl
  count_eq := rfl

/-- A receiver takes a payload: it stores a part of it or the payload before it, or nothing if
that is the first one of a file of unknown length. -/
theorem Filing.taken (h : Filing header payloads count s) (payload : Bytes) :
    ∃ (data : Bytes) (useful : Nat) (held : Option Bytes),
      Taken header payloads payload count data { s with job := { s.job with held } } ∧
      (take s payload =
          ({ s with job := { s.job with held } } : Receiver).goto (.store data useful) ∨
        data = [] ∧ take s payload =
          ({ s with job := { s.job with held } } : Receiver).goto (.accept useful)) := by
  have hdeclared := h.declared_eq
  have hdelivered := h.delivered_eq
  have hheld := h.held_eq
  cases hlength : declaredLength header with
  | some length =>
    -- What belongs to the file is stored at once.
    have hstored := stored_some_concat length payloads payload
    rw [hlength] at hdelivered hheld
    refine ⟨payload.take (length - s.job.delivered),
      (payload.take (length - s.job.delivered)).length, s.job.held,
      ⟨?_, ⟨h.header_eq, ?_, ?_, h.number_eq, h.count_eq⟩⟩, .inl ?_⟩
    · rw [hlength, hstored, hdelivered]
    · rw [hlength, hstored, List.length_append, ← hdelivered]
    · rw [hlength]
      exact hheld
    · rw [take, hdeclared, hlength]
  | none =>
    -- The payload is held back, and the one before it is stored.
    have hstored := stored_none_concat payloads payload
    rw [hlength] at hdelivered hheld
    refine ⟨(heldBack none payloads).getD [], payload.length, some payload,
      ⟨?_, ⟨h.header_eq, ?_, ?_, h.number_eq, h.count_eq⟩⟩, ?_⟩
    · rw [hlength, hstored]
    · rw [hlength, hstored, List.length_append, ← hdelivered]
    · rw [hlength, heldBack_none_concat]
    · rw [take, hdeclared, hlength, hheld]
      cases heldBack none payloads with
      | none => exact .inr ⟨rfl, rfl⟩
      | some previous => exact .inl rfl

/-- A block is counted after its payload has been taken. -/
theorem Filing.counted {payload : Bytes} (h : Filing header (payloads ++ [payload]) count s)
    (useful : Nat) :
    Filing header (payloads ++ [payload]) (count + 1)
      (s.mapSession (·.completeBlock useful)) where
  header_eq := h.header_eq
  delivered_eq := h.delivered_eq
  held_eq := h.held_eq
  number_eq := by
    change s.session.blockNumber + 1 = _
    rw [h.number_eq, UInt8.ofNat_add (count + 1) 1]
    rfl
  count_eq := congrArg (· + 1) h.count_eq

end BlockTransfer.Receiver
