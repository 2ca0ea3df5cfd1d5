import BlockTransfer.Proofs.Header

/-!
# What is left of a header

A header that goes through a block comes back in a normal form. Its name is cut where the next
character would not fit any more. The fields are lost if they do not fit behind the name, all of
them; otherwise each is kept that is known together with those before it. A time has only whole
seconds, and is lost if it is not after the beginning of 1970.

## Main definitions

* `IsLongestFitting`: a text is cut as late as its bytes fit.
* `Timestamp.wholeSecond`: a moment without the part of its second.

## Main results

* `FileHeader.timeOf?_toNat`: what is read of a time.
* `FileHeader.parse_toBlock_normalForm`: the block of a header, and what is read back from it.
-/

namespace BlockTransfer

/-- The longest beginning of a text that takes at most `room` bytes. -/
structure IsLongestFitting (room : Nat) (text front : String) : Prop where
  /-- It is a beginning. -/
  isPrefix : ∃ rest, front ++ rest = text
  /-- It fits. -/
  fits : front.utf8ByteSize ≤ room
  /-- No other beginning that fits is longer. -/
  longest : ∀ other rest, other ++ rest = text → other.utf8ByteSize ≤ room →
    other.utf8ByteSize ≤ front.utf8ByteSize

/-- The beginning of the second that a moment is in. -/
def Timestamp.wholeSecond (time : Timestamp) : Timestamp where
  seconds := time.seconds
  nanos := 0
  seconds_mem := time.seconds_mem
  nanos_fit := .inl (by decide)

namespace FileHeader

/-! ## The name -/

/-- Every beginning that fits is one of that which is kept. -/
theorem prefix_fittingPrefix_of_le {front cs : List Char} {n : Nat} (h : front <+: cs)
    (hle : (Utf8.encodeChars front).length ≤ n) : front <+: fittingPrefix n cs := by
  induction cs generalizing front n with
  | nil =>
    rw [List.prefix_nil.mp h]
    exact List.nil_prefix
  | cons c cs ih =>
    cases front with
    | nil => exact List.nil_prefix
    | cons d front =>
      obtain ⟨rfl, hfront⟩ := List.cons_prefix_cons.mp h
      rw [Utf8.encodeChars, List.flatMap_cons, List.length_append] at hle
      rw [fittingPrefix, if_pos (by omega)]
      exact (List.prefix_cons_inj d).mpr (ih hfront (Nat.le_sub_of_add_le' hle))

/-- All is kept, or there is no room for another character of the greatest size. -/
theorem fittingPrefix_eq_self_or (n : Nat) (cs : List Char) :
    fittingPrefix n cs = cs ∨ n < (Utf8.encodeChars (fittingPrefix n cs)).length + 4 := by
  induction cs generalizing n with
  | nil => exact .inl rfl
  | cons c cs ih =>
    rw [fittingPrefix]
    split
    · rcases ih (n - (Utf8.encodeChar c).length) with h | h
      · exact .inl (by rw [h])
      · right
        rw [Utf8.encodeChars, List.flatMap_cons, List.length_append]
        rw [Utf8.encodeChars] at h
        omega
    · have := (Utf8.length_encodeChar_mem c).2
      right
      omega

/-- The name is cut as late as it fits. -/
theorem isLongestFitting_fittingName (header : FileHeader) :
    IsLongestFitting room header.name header.fittingName where
  isPrefix := by
    obtain ⟨rest, hrest⟩ := prefix_fittingPrefix room header.name.toList
    refine ⟨String.ofList rest, ?_⟩
    rw [fittingName, ← String.ofList_append, hrest, String.ofList_toList]
  fits := by
    rw [fittingName, ← Utf8.length_encodeChars]
    exact length_encodeChars_fittingPrefix_le _ _
  longest := by
    intro other rest hname hfits
    have hother : other.toList <+: header.name.toList :=
      ⟨rest.toList, by rw [← String.toList_append, hname]⟩
    rw [← Utf8.length_encode] at hfits
    obtain ⟨more, hmore⟩ := prefix_fittingPrefix_of_le hother hfits
    rw [fittingName, ← hmore, String.ofList_append, String.ofList_toList,
      String.utf8ByteSize_append]
    exact Nat.le_add_right _ _

/-- A name that is cut fills all but its last few bytes of the room. -/
theorem fittingName_eq_self_or (header : FileHeader) :
    header.fittingName = header.name ∨ room < header.fittingName.utf8ByteSize + 4 := by
  rcases fittingPrefix_eq_self_or room header.name.toList with h | h
  · left
    rw [fittingName, h, String.ofList_toList]
  · right
    rwa [fittingName, ← Utf8.length_encodeChars]

/-! ## The fields -/

/-- A numeral takes as many bytes as it has digits. -/
theorem utf8ByteSize_digits {base : Nat} (n : Nat) (hlo : 1 < base) (hhi : base ≤ 10) :
    (String.ofList (Numeral.digits base n)).utf8ByteSize = (Numeral.digits base n).length := by
  have hdigits : ∀ c ∈ Numeral.digits base n, c.utf8Size = 1 := by
    intro c hc
    have hdigit := Numeral.isDigit_of_mem_digits hlo hhi hc
    simp only [Char.isDigit, Bool.and_eq_true, decide_eq_true_eq] at hdigit
    exact Char.utf8Size_eq_one_iff.mpr (UInt32.le_trans hdigit.2 (by decide))
  generalize Numeral.digits base n = cs at hdigits
  induction cs with
  | nil => rfl
  | cons c cs ih =>
    rw [String.ofList_cons, String.utf8ByteSize_append, String.utf8ByteSize_singleton,
      ih fun d hd => hdigits d (List.mem_cons_of_mem c hd), hdigits c List.mem_cons_self,
      List.length_cons, Nat.add_comm]

/-- A numeral takes as many bytes as the power of its base that is above it. -/
theorem utf8ByteSize_digits_le {base n width : Nat} (hlo : 1 < base) (hhi : base ≤ 10)
    (hwidth : 0 < width) (h : n < base ^ width) :
    (String.ofList (Numeral.digits base n)).utf8ByteSize ≤ width := by
  rw [utf8ByteSize_digits n hlo hhi]
  exact (Nat.length_toDigits_le_iff hlo hwidth).mpr h

/-- The fields are not long. -/
theorem utf8ByteSize_info_le (header : FileHeader) : header.info.utf8ByteSize ≤ 48 := by
  unfold info
  cases header.length with
  | none => exact Nat.zero_le 48
  | some length =>
    -- Each field has as many digits as the greatest number of its kind.
    have hlength : (Numeral.decimal length.toNat).utf8ByteSize ≤ 20 :=
      utf8ByteSize_digits_le (by omega) (by omega) (by omega)
        (Nat.lt_trans length.toNat_lt (by decide))
    have hspace : " ".utf8ByteSize = 1 := rfl
    cases header.modified with
    | none =>
      simp only [String.utf8ByteSize_append, String.utf8ByteSize_empty]
      omega
    | some modified =>
      have hseconds : modified.seconds.toNat < 8 ^ 15 := by
        have hlast := modified.seconds_mem.2
        have hlast_lt : Timestamp.lastSecond < 8 ^ 15 := by decide
        omega
      have hmodified : (Numeral.octal modified.seconds.toNat).utf8ByteSize ≤ 15 :=
        utf8ByteSize_digits_le (by omega) (by omega) (by omega) hseconds
      cases header.mode with
      | none =>
        simp only [String.utf8ByteSize_append, String.utf8ByteSize_empty]
        omega
      | some mode =>
        have hmode : (Numeral.octal mode.toNat).utf8ByteSize ≤ 11 :=
          utf8ByteSize_digits_le (by omega) (by omega) (by omega)
            (Nat.lt_trans mode.toNat_lt (by decide))
        simp only [String.utf8ByteSize_append]
        omega

/-- What is read of a time: its second, if that is not before or at the beginning of 1970. -/
theorem timeOf?_toNat (time : Timestamp) :
    timeOf? time.seconds.toNat = if 0 < time.seconds then some time.wholeSecond else none := by
  have hlast := time.seconds_mem.2
  have hlast_lt : Timestamp.lastSecond < 2 ^ 63 := by decide
  have hlt : time.seconds.toNat < UInt64.size / 2 := by
    have hsize : UInt64.size / 2 = 2 ^ 63 := rfl
    omega
  -- No second is so late that it would be read as one before 1970.
  simp only [timeOf?, if_pos hlt]
  split
  · rw [if_neg (by omega)]
  · have hseconds : (time.seconds.toNat : Int) = time.seconds := by omega
    rw [hseconds, if_pos (by omega), Timestamp.ofSeconds?, Timestamp.ofParts?,
      dif_pos time.seconds_mem, dif_pos (.inl (by decide))]
    rfl

/-! ## The block -/

theorem length_wireName (header : FileHeader) :
    header.wireName.length = header.fittingName.utf8ByteSize :=
  Utf8.length_encodeChars _

/-- How long a header is without the zeros that fill up its block. -/
theorem length_wireBytes (header : FileHeader) :
    header.wireBytes.length = header.fittingName.utf8ByteSize +
      (if header.fittingName.utf8ByteSize + header.info.utf8ByteSize ≤ room
        then header.info.utf8ByteSize else 0) + 2 := by
  simp only [wireBytes, List.length_append, List.length_cons, List.length_nil, length_wireName,
    Utf8.length_encode]
  split
  · rw [Utf8.length_encode]
    omega
  · rw [List.length_nil]

/-- A header is in a short block just if its whole name and all fields have room there. -/
theorem length_wireBytes_le_iff (header : FileHeader) :
    header.wireBytes.length ≤ 128 ↔
      header.name.utf8ByteSize + header.info.utf8ByteSize + 2 ≤ 128 := by
  have hinfo := header.utf8ByteSize_info_le
  have hroom : room = 1022 := rfl
  rw [length_wireBytes]
  rcases header.fittingName_eq_self_or with h | h
  · -- The fields are only left out behind a name that is too long by itself.
    rw [h]
    split <;> omega
  · -- So is a name that has to be cut.
    obtain ⟨rest, hname⟩ := header.isLongestFitting_fittingName.isPrefix
    rw [← hname, String.utf8ByteSize_append]
    split <;> omega

/-! ## What is read back -/

theorem name_received (header : FileHeader) : header.received.name = header.fittingName := by
  unfold received
  split <;> rfl

/-- Where the fields do not fit behind the name all of them are lost. -/
theorem received_of_lt {header : FileHeader}
    (h : room < header.fittingName.utf8ByteSize + header.info.utf8ByteSize) :
    header.received = { name := header.fittingName } := by
  rw [received, length_wireName, Utf8.length_encode, if_neg (Nat.not_le.mpr h)]

/-- Where they do fit, a field is kept that is known together with those before it. -/
theorem received_of_le {header : FileHeader}
    (h : header.fittingName.utf8ByteSize + header.info.utf8ByteSize ≤ room) :
    header.received = {
      name := header.fittingName
      length := header.length
      modified := if header.length.isSome then
        (header.modified.filter (0 < ·.seconds)).map Timestamp.wholeSecond else none
      mode := if header.length.isSome ∧ header.modified.isSome then header.mode else none } := by
  rw [received, length_wireName, Utf8.length_encode, if_pos h]
  cases header.length with
  | none => rfl
  | some length =>
    cases header.modified with
    | none => rfl
    | some modified =>
      simp only [Option.bind_some, timeOf?_toNat, Option.filter_some, Option.isSome_some,
        decide_eq_true_eq, and_self, if_true]
      split <;> rfl

/-- The block of a header is the shortest that holds it, and what is read back from it is the header
in its normal form. -/
theorem parse_toBlock_normalForm {header : FileHeader} (hne : header.name ≠ "")
    (hnul : ∀ c ∈ header.name.toList, c.toNat ≠ 0) :
    Block.padded? 0 header.wireBytes (.fitting header.wireBytes.length) 0 = .ok header.toBlock ∧
    header.toBlock.number = 0 ∧
    header.toBlock.payload.length =
      (if header.name.utf8ByteSize + header.info.utf8ByteSize + 2 ≤ 128 then 128 else 1024) ∧
    ∃ parsed, parse header.toBlock.payload = .ok (some parsed) ∧
      IsLongestFitting 1022 header.name parsed.name ∧
      if 1022 < parsed.name.utf8ByteSize + header.info.utf8ByteSize then
        parsed.length = none ∧ parsed.modified = none ∧ parsed.mode = none
      else
        parsed.length = header.length ∧
        parsed.modified = (if header.length.isSome then
          (header.modified.filter (0 < ·.seconds)).map Timestamp.wholeSecond else none) ∧
        parsed.mode =
          if header.length.isSome ∧ header.modified.isSome then header.mode else none := by
  refine ⟨if_pos (BlockSize.le_length_fitting header.length_wireBytes_le), rfl, ?_,
    header.received, parse_toBlock hne hnul, ?_, ?_⟩
  · rw [header.toBlock.length_payload]
    change (BlockSize.fitting header.wireBytes.length).length = _
    simp only [BlockSize.fitting, length_wireBytes_le_iff]
    split <;> rfl
  · rw [name_received]
    exact header.isLongestFitting_fittingName
  · rw [name_received]
    split
    · rename_i hlong
      rw [received_of_lt hlong]
      exact ⟨rfl, rfl, rfl⟩
    · rename_i hfits
      rw [received_of_le (Nat.not_lt.mp hfits)]
      exact ⟨rfl, rfl, rfl⟩

/-- A file of three bytes, changed half a second after the first second of 1970, comes back with all
its fields but for that half second. -/
theorem parse_toBlock_normalForm_half_second :
    let time : Timestamp := ⟨1, 500000000, by decide, by decide⟩
    let header : FileHeader :=
      { name := "né", length := some 3, modified := some time, mode := some 420 }
    header.name ≠ "" ∧ (∀ c ∈ header.name.toList, c.toNat ≠ 0) ∧
    Block.padded? 0 header.wireBytes (.fitting header.wireBytes.length) 0 = .ok header.toBlock ∧
    header.toBlock.number = 0 ∧ header.toBlock.payload.length = 128 ∧
    ∃ parsed, parse header.toBlock.payload = .ok (some parsed) ∧
      IsLongestFitting 1022 "né" parsed.name ∧ parsed.length = some 3 ∧
      parsed.modified = some ⟨1, 0, by decide, by decide⟩ ∧ parsed.mode = some 420 := by
  intro time header
  have hne : header.name ≠ "" := by decide
  have hnul : ∀ c ∈ header.name.toList, c.toNat ≠ 0 := by simp [header]
  obtain ⟨hfits, hnumber, hlength, parsed, hparsed, hname, hfields⟩ :=
    parse_toBlock_normalForm hne hnul
  have hinfo : header.info.utf8ByteSize = 7 := by decide +kernel
  have hsize : header.name.utf8ByteSize = 3 := by decide
  have hshort : parsed.name.utf8ByteSize ≤ 3 := by
    obtain ⟨rest, hrest⟩ := hname.isPrefix
    rw [← hsize, ← hrest, String.utf8ByteSize_append]
    exact Nat.le_add_right _ _
  rw [if_pos (by omega)] at hlength
  rw [if_neg (by omega)] at hfields
  exact ⟨hne, hnul, hfits, hnumber, hlength, parsed, hparsed, hname, hfields⟩

end FileHeader

end BlockTransfer
