import BlockTransfer.Header
import BlockTransfer.Proofs.Text.Numeral
import BlockTransfer.Proofs.Text.Utf8
import BlockTransfer.Proofs.Text.Words

/-!
# Reading file headers back

The block that announces a file is read back as a header of that file. Its name is the beginning
that fits into a block, and its fields are those that were written: none if they do not fit after
the name, and otherwise each field that is known together with all fields before it.

## Main definitions

* `FileHeader.received`: what the receiver of the block knows about the file.

## Main results

* `FileHeader.parse_toBlock`: the block of a header is read back as just that.
* `FileHeader.parse_toBlock_eq_none_iff`: which headers are taken for the end of a batch.
-/

namespace BlockTransfer.FileHeader

/-- The fields after the name, one word each. -/
def fieldWords (header : FileHeader) : List (List Char) :=
  match header.length with
  | none => []
  | some length =>
    Numeral.digits 10 length.toNat ::
      match header.modified with
      | none => []
      | some modified =>
        Numeral.digits 8 modified.seconds.toNat ::
          match header.mode with
          | none => []
          | some mode => [Numeral.digits 8 mode.toNat]

/-- The name as far as it fits into a block. -/
def fittingName (header : FileHeader) : String :=
  String.ofList (fittingPrefix room header.name.toList)

/-- What the receiver of the header's block knows about the file. -/
def received (header : FileHeader) : FileHeader :=
  if header.wireName.length + (Utf8.encode header.info).length ≤ room then
    { name := header.fittingName
      length := header.length
      modified := header.length.bind fun _ =>
        header.modified.bind fun modified => timeOf? modified.seconds.toNat
      mode := header.length.bind fun _ => header.modified.bind fun _ => header.mode }
  else { name := header.fittingName }

/-- A length that is received is the one that was sent. -/
theorem length_received (header : FileHeader) :
    header.received.length = none ∨ header.received.length = header.length := by
  unfold received
  split
  · exact .inr rfl
  · exact .inl rfl

/-! ## Fields -/

/-- The fields are joined by spaces. -/
theorem toList_info (header : FileHeader) :
    header.info.toList = [' '].intercalate header.fieldWords := by
  unfold info fieldWords
  cases header.length with
  | none => rfl
  | some length =>
    cases header.modified with
    | none => simp [Numeral.decimal]
    | some modified =>
      cases header.mode with
      | none => simp [Numeral.decimal, Numeral.octal, List.intercalate_cons_cons]
      | some mode => simp [Numeral.decimal, Numeral.octal, List.intercalate_cons_cons]

/-- Every field consists of digits. -/
theorem exists_digits_of_mem_fieldWords {header : FileHeader} {w : List Char}
    (h : w ∈ header.fieldWords) : ∃ base n, 1 < base ∧ base ≤ 10 ∧ w = Numeral.digits base n := by
  unfold fieldWords at h
  -- The length comes first, and each other field only after the one before it.
  cases hlength : header.length with
  | none => simp [hlength] at h
  | some length =>
    cases hmodified : header.modified with
    | none =>
      simp only [hlength, hmodified, List.mem_singleton] at h
      exact ⟨10, _, by omega, by omega, h⟩
    | some modified =>
      cases hmode : header.mode with
      | none =>
        simp only [hlength, hmodified, hmode, List.mem_cons, List.not_mem_nil, or_false] at h
        rcases h with h | h
        · exact ⟨10, _, by omega, by omega, h⟩
        · exact ⟨8, _, by omega, by omega, h⟩
      | some mode =>
        simp only [hlength, hmodified, hmode, List.mem_cons, List.not_mem_nil, or_false] at h
        rcases h with h | h | h
        · exact ⟨10, _, by omega, by omega, h⟩
        · exact ⟨8, _, by omega, by omega, h⟩
        · exact ⟨8, _, by omega, by omega, h⟩

theorem isWord_of_mem_fieldWords {header : FileHeader} {w : List Char}
    (h : w ∈ header.fieldWords) : Text.IsWord w := by
  obtain ⟨base, n, hlo, hhi, rfl⟩ := exists_digits_of_mem_fieldWords h
  exact ⟨Numeral.digits_ne_nil base n, fun c hc =>
    Text.isBlank_of_isDigit (Numeral.isDigit_of_mem_digits hlo hhi hc)⟩

/-- The fields have no character zero in them. -/
theorem toNat_ne_zero_of_mem_info {header : FileHeader} {c : Char}
    (h : c ∈ header.info.toList) : c.toNat ≠ 0 := by
  rw [toList_info] at h
  rcases Text.mem_or_mem_of_mem_intercalate h with h | ⟨w, hw, hc⟩
  · -- A space between two fields.
    rw [List.mem_singleton.mp h]
    decide
  · -- A digit of a field.
    obtain ⟨base, n, hlo, hhi, rfl⟩ := exists_digits_of_mem_fieldWords hw
    have hdigit := Numeral.isDigit_of_mem_digits hlo hhi hc
    intro hzero
    simp only [Char.isDigit, Bool.and_eq_true, decide_eq_true_eq, ge_iff_le,
      UInt32.le_iff_toNat_le] at hdigit
    have hval : c.val.toNat = 0 := hzero
    rw [hval] at hdigit
    exact absurd hdigit.1 (by decide)

theorem readField?_digits (field : HeaderField) (base : Nat) {n : Nat} (hlo : 1 < base)
    (hhi : base ≤ 10) (h : n < UInt64.size) :
    readField? base field (some (Numeral.digits base n)) = .ok (some n) := by
  rw [readField?, readField, Numeral.read_digits hlo hhi h]
  rfl

theorem modeOf_toNat (mode : UInt32) : modeOf mode.toNat = .ok mode := by
  have hmode : mode.toNat < UInt32.size := mode.toNat_lt
  rw [modeOf, if_pos hmode, UInt32.ofNat_toNat]

/-- The fields are read back from their words. -/
theorem parseInfo_fieldWords (header : FileHeader) (name : String) :
    parseInfo name header.fieldWords = .ok {
      name := name
      length := header.length
      modified := header.length.bind fun _ =>
        header.modified.bind fun modified => timeOf? modified.seconds.toNat
      mode := header.length.bind fun _ => header.modified.bind fun _ => header.mode } := by
  unfold parseInfo fieldWords
  -- A field is there only with all fields before it, so there are four cases.
  cases header.length with
  | none => rfl
  | some length =>
    have hlength : length.toNat < UInt64.size := length.toNat_lt
    have hread := readField?_digits .length 10 (by omega) (by omega) hlength
    cases header.modified with
    | none =>
      simp only [List.getElem?_cons_zero, List.getElem?_cons_succ, List.getElem?_nil, hread]
      simp [readField?, pure, bind, Except.bind, Except.pure]
    | some modified =>
      -- A time can be told in seconds that fit into 64 bits.
      have hbound : modified.seconds.toNat < UInt64.size := by
        have h := modified.seconds_mem.2
        unfold Timestamp.lastSecond at h
        unfold UInt64.size
        omega
      have hread' := readField?_digits .modified 8 (by omega) (by omega) hbound
      cases header.mode with
      | none =>
        simp only [List.getElem?_cons_zero, List.getElem?_cons_succ, List.getElem?_nil, hread,
          hread']
        simp [readField?, pure, bind, Except.bind, Except.pure]
      | some mode =>
        have hmode : mode.toNat < UInt64.size := Nat.lt_trans mode.toNat_lt (by decide)
        have hread'' := readField?_digits .mode 8 (by omega) (by omega) hmode
        simp only [List.getElem?_cons_zero, List.getElem?_cons_succ, hread, hread', hread'']
        simp [modeOf_toNat, bind, Except.bind, pure, Except.pure]

/-! ## The whole block -/

/-- A kept name is not empty. -/
theorem fittingPrefix_ne_nil {cs : List Char} (h : cs ≠ []) : fittingPrefix room cs ≠ [] := by
  cases cs with
  | nil => exact absurd rfl h
  | cons c cs =>
    have hc : (Utf8.encodeChar c).length ≤ room := by
      have := (Utf8.length_encodeChar_mem c).2
      have : room = 1022 := rfl
      omega
    simp [fittingPrefix, hc]

/-- What is kept of a name is a beginning of it. -/
theorem prefix_fittingPrefix (n : Nat) (cs : List Char) : fittingPrefix n cs <+: cs := by
  induction cs generalizing n with
  | nil => exact List.prefix_rfl
  | cons c cs ih =>
    rw [fittingPrefix]
    split
    · exact (List.prefix_cons_inj c).mpr (ih _)
    · exact List.nil_prefix

/-- The payload of the block that announces a file. -/
theorem payload_toBlock (header : FileHeader) :
    ∃ zeros : Nat, header.toBlock.payload = header.wireName ++ 0 ::
      ((if header.wireName.length + (Utf8.encode header.info).length ≤ room
        then Utf8.encode header.info else []) ++ 0 :: List.replicate zeros 0) := by
  have hfit := BlockSize.le_length_fitting header.length_wireBytes_le
  refine ⟨(BlockSize.fitting header.wireBytes.length).length - header.wireBytes.length, ?_⟩
  change header.wireBytes.take _ ++ List.replicate _ 0 = _
  rw [List.take_of_length_le hfit]
  simp [wireBytes]

/-- What stands before the first zero byte. -/
theorem takeWhile_ne_zero {front : Bytes} (h : (0 : UInt8) ∉ front) (back : Bytes) :
    (front ++ 0 :: back).takeWhile (· ≠ 0) = front := by
  rw [List.takeWhile_append_of_pos]
  · simp
  · intro b hb
    simp only [decide_eq_true_eq]
    rintro rfl
    exact h hb

/-- What stands from the first zero byte on. -/
theorem dropWhile_ne_zero {front : Bytes} (h : (0 : UInt8) ∉ front) (back : Bytes) :
    (front ++ 0 :: back).dropWhile (· ≠ 0) = 0 :: back := by
  rw [List.dropWhile_append_of_pos]
  · simp
  · intro b hb
    simp only [decide_eq_true_eq]
    rintro rfl
    exact h hb

/-- The block that announces a file is read back as what the receiver knows about it. -/
theorem parse_toBlock {header : FileHeader} (hne : header.name ≠ "")
    (hnul : ∀ c ∈ header.name.toList, c.toNat ≠ 0) :
    parse header.toBlock.payload = .ok (some header.received) := by
  have hlist : header.name.toList ≠ [] := by simpa using hne
  have hname : header.wireName ≠ [] := Utf8.encodeChars_ne_nil (fittingPrefix_ne_nil hlist)
  have hzero : (0 : UInt8) ∉ header.wireName :=
    Utf8.zero_notMem_encodeChars fun c hc => hnul c ((prefix_fittingPrefix _ _).subset hc)
  have hinfo : (0 : UInt8) ∉ Utf8.encode header.info :=
    Utf8.zero_notMem_encodeChars fun c hc => toNat_ne_zero_of_mem_info hc
  have hdecode : Utf8.decode? header.wireName = some (fittingPrefix room header.name.toList) :=
    Utf8.decode?_encodeChars _
  obtain ⟨zeros, hpayload⟩ := header.payload_toBlock
  obtain ⟨first, front, hfirst⟩ := List.exists_cons_of_ne_nil hname
  -- The block does not begin with the mark that ends a batch.
  have hfirst_ne : first ≠ 0 := by
    rintro rfl
    exact hzero (by rw [hfirst]; exact List.mem_cons_self)
  rw [hpayload]
  generalize htail : (if header.wireName.length + (Utf8.encode header.info).length ≤ room
    then Utf8.encode header.info else []) ++ 0 :: List.replicate zeros 0 = tail
  -- The name ends at the first zero byte, and the fields stand between that and the next.
  have htake := takeWhile_ne_zero hzero tail
  have hdrop := dropWhile_ne_zero hzero tail
  rw [hfirst, List.cons_append] at htake hdrop ⊢
  rw [parse, if_neg hfirst_ne]
  simp only [htake, hdrop]
  rw [← hfirst, hdecode]
  dsimp only
  rw [← htail]
  unfold received
  split
  · -- The fields are there.
    rw [takeWhile_ne_zero hinfo, Utf8.encode, Utf8.decodeLossy_encodeChars, toList_info,
      Text.words_intercalate _ fun w hw => isWord_of_mem_fieldWords hw, parseInfo_fieldWords]
    rfl
  · -- The fields are left out.
    rw [takeWhile_ne_zero List.not_mem_nil]
    rfl

/-- Just what begins with a zero byte ends a batch. -/
theorem parse_eq_none_iff {payload : Bytes} :
    parse payload = .ok none ↔ ∀ first ∈ payload.head?, first = 0 := by
  cases payload with
  | nil => simp [parse]
  | cons first payload =>
    simp only [List.head?_cons, Option.mem_some_iff, forall_eq']
    rw [parse]
    constructor
    · intro h
      by_contra hfirst
      rw [if_neg hfirst] at h
      dsimp only at h
      split at h
      · cases h
      · split at h
        · cases h
        · -- With its fields a name makes a header, or there is an error.
          unfold Except.map at h
          split at h <;> cases h
    · exact fun hfirst => if_pos hfirst

/-- Just the header of a file whose name is empty or begins with the character zero is taken for
the end of a batch. -/
theorem parse_toBlock_eq_none_iff (header : FileHeader) :
    parse header.toBlock.payload = .ok none ↔
      ∀ c ∈ header.name.toList.head?, c.toNat = 0 := by
  obtain ⟨tail, hpayload⟩ : ∃ tail, header.toBlock.payload = header.wireName ++ 0 :: tail := by
    obtain ⟨zeros, hpayload⟩ := header.payload_toBlock
    exact ⟨_, hpayload⟩
  rw [parse_eq_none_iff, hpayload, wireName]
  cases header.name.toList with
  | nil => simp [fittingPrefix, Utf8.encodeChars]
  | cons c cs =>
    obtain ⟨hpos, hfour⟩ := Utf8.length_encodeChar_mem c
    have hfits : fittingPrefix room (c :: cs) = c :: fittingPrefix _ cs :=
      if_pos (hfour.trans (by decide))
    obtain ⟨first, bytes, hbytes⟩ := List.exists_cons_of_ne_nil (List.ne_nil_of_length_pos hpos)
    rw [hfits, Utf8.encodeChars, List.flatMap_cons, hbytes]
    simp only [List.cons_append, List.head?_cons, Option.mem_some_iff, forall_eq']
    constructor
    · rintro rfl
      by_contra hzero
      exact Utf8.zero_notMem_encodeChar hzero (by simp [hbytes])
    · intro hzero
      rw [Utf8.encodeChar, hzero] at hbytes
      exact (List.cons.inj hbytes).1.symm

end BlockTransfer.FileHeader
