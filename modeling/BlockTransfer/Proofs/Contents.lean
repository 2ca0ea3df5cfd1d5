import BlockTransfer.Receiver
import BlockTransfer.Sender
import Mathlib.Data.List.Basic

/-!
# Contents in blocks

The sender cuts a file into pieces, each of which fills a block but perhaps the last one. The
receiver puts the payloads together again: of a file of declared length it stores that many bytes,
and otherwise it holds the latest payload back until the file ends, and strips the padding from
it.

## Main definitions

* `Sender.blocksFrom`: the blocks of a file.
* `Receiver.stored` and `Receiver.heldBack`: what has been stored and what is held back after some
  payloads.
* `Receiver.contents`: what is stored when the file ends.
* `withoutPadding`: a file without the padding bytes at its end that lie in its last block.

## Main results

* `contents_blocksFrom_length`: a file of declared length is put together exactly.
* `contents_blocksFrom_of_pad_eq`: a file of unknown length loses padding in its last block only.
-/

namespace BlockTransfer

/-! ## Receiving -/

namespace Receiver

/-- What has been stored of a file after some payloads. -/
def stored (length? : Option Nat) (payloads : List Bytes) : Bytes :=
  match length? with
  | some length => payloads.flatten.take length
  | none => payloads.dropLast.flatten

/-- The payload that is held back after some payloads. -/
def heldBack (length? : Option Nat) (payloads : List Bytes) : Option Bytes :=
  match length? with
  | some _ => none
  | none => payloads.getLast?

/-- What has been stored of a file when it ends after some payloads. -/
def contents (length? : Option Nat) (pad : UInt8) (payloads : List Bytes) : Bytes :=
  stored length? payloads ++ ((heldBack length? payloads).map (stripPadding · pad)).getD []

/-- The length that a header declares, if there is a header and it does. -/
def declaredLength (header : Option FileHeader) : Option Nat :=
  (header.bind FileHeader.length).map UInt64.toNat

/-- A payload of a file of declared length is stored as far as it belongs to the file. -/
theorem stored_some_concat (length : Nat) (payloads : List Bytes) (payload : Bytes) :
    stored (some length) (payloads ++ [payload]) =
      stored (some length) payloads ++
        payload.take (length - (stored (some length) payloads).length) := by
  simp only [stored, List.flatten_append, List.flatten_cons, List.flatten_nil, List.append_nil]
  rw [List.take_append, List.length_take]
  congr 2
  omega

/-- A payload of a file of unknown length makes room for the one that was held back. -/
theorem stored_none_concat (payloads : List Bytes) (payload : Bytes) :
    stored none (payloads ++ [payload]) =
      stored none payloads ++ (heldBack none payloads).getD [] := by
  simp only [stored, heldBack, List.dropLast_concat]
  -- Before the first payload nothing is held back.
  rcases List.eq_nil_or_concat payloads with rfl | ⟨front, last, rfl⟩
  · rfl
  · simp

@[simp]
theorem heldBack_none_concat (payloads : List Bytes) (payload : Bytes) :
    heldBack none (payloads ++ [payload]) = some payload := by
  simp [heldBack]

/-- The payload that is not the last one is put in front. -/
theorem contents_none_cons {pad : UInt8} {payload : Bytes} {payloads : List Bytes}
    (h : payloads ≠ []) :
    contents none pad (payload :: payloads) = payload ++ contents none pad payloads := by
  obtain ⟨next, rest, rfl⟩ := List.exists_cons_of_ne_nil h
  simp [contents, stored, heldBack, List.getLast?_cons_cons]

/-- Padding that was added at the end is stripped with what was there. -/
theorem stripPadding_append_replicate (payload : Bytes) (count : Nat) (pad : UInt8) :
    stripPadding (payload ++ List.replicate count pad) pad = stripPadding payload pad := by
  unfold stripPadding
  rw [List.reverse_append, List.reverse_replicate, List.dropWhile_append_of_pos]
  intro b hb
  rw [decide_eq_true_eq]
  exact (List.mem_replicate.mp hb).2

/-- Nothing is stripped from bytes that do not end in padding. -/
theorem stripPadding_of_getLast?_ne {payload : Bytes} {pad : UInt8}
    (h : payload.getLast? ≠ some pad) : stripPadding payload pad = payload := by
  rcases List.eq_nil_or_concat payload with rfl | ⟨front, last, rfl⟩
  · rfl
  · have hlast : last ≠ pad := by simpa using h
    simp [stripPadding, hlast]

/-- Nothing but padding is stripped. -/
theorem stripPadding_append_stripped (payload : Bytes) (pad : UInt8) :
    ∃ count, stripPadding payload pad ++ List.replicate count pad = payload := by
  -- What is stripped is padding throughout.
  have hpad : payload.reverse.takeWhile (· = pad) =
      List.replicate (payload.reverse.takeWhile (· = pad)).length pad :=
    List.eq_replicate_iff.mpr ⟨rfl, fun b hb => by
      simpa using List.all_eq_true.mp List.all_takeWhile b hb⟩
  refine ⟨(payload.reverse.takeWhile (· = pad)).length, ?_⟩
  rw [stripPadding, ← List.reverse_replicate, ← List.reverse_append, ← hpad,
    List.takeWhile_append_dropWhile, List.reverse_reverse]

end Receiver

/-! ## Sending -/

namespace Sender

/-- The block with the given number that holds a piece of a file. -/
def pieceBlock (options : Options) (number : Nat) (piece : Bytes) : Block :=
  let size := if piece.length ≤ BlockSize.short.length then .short else options.variant.blockSize
  Block.padded (UInt8.ofNat number) piece size options.pad

/-- The blocks of what is left of a file, the first of which has the given number. -/
def blocksFrom (options : Options) (number : Nat) (content : Bytes) : List Block :=
  if content = [] then []
  else
    pieceBlock options number (content.take options.variant.blockSize.length) ::
      blocksFrom options (number + 1) (content.drop options.variant.blockSize.length)
termination_by content.length
decreasing_by
  have := List.length_pos_iff.mpr ‹content ≠ []›
  have : 0 < options.variant.blockSize.length := by cases options.variant <;> decide
  rw [List.length_drop]
  omega

/-- The position at which the last block of a file starts. -/
def lastStart (size length : Nat) : Nat :=
  (length - 1) / size * size

/-- The payload of the last block of a file. -/
def lastPayload (options : Options) (content : Bytes) : Bytes :=
  let start := lastStart options.variant.blockSize.length content.length
  if content = [] then [] else (pieceBlock options 0 (content.drop start)).payload

end Sender

/-- A file without the padding bytes at its end that lie in its last block. -/
def withoutPadding (size : Nat) (pad : UInt8) (content : Bytes) : Bytes :=
  let start := Sender.lastStart size content.length
  content.take start ++ Receiver.stripPadding (content.drop start) pad

namespace Sender

variable {options : Options} {number : Nat} {content piece : Bytes}

theorem blockSize_pos (options : Options) : 0 < options.variant.blockSize.length := by
  cases options.variant <;> decide

theorem dataBlock_eq {s : Sender} (hnumber : s.session.blockNumber = UInt8.ofNat number) :
    dataBlock s piece = pieceBlock s.options number piece := by
  rw [dataBlock, hnumber]
  rfl

@[simp]
theorem blocksFrom_nil : blocksFrom options number [] = [] := by
  rw [blocksFrom, if_pos rfl]

theorem blocksFrom_of_ne_nil (h : content ≠ []) :
    blocksFrom options number content =
      pieceBlock options number (content.take options.variant.blockSize.length) ::
        blocksFrom options (number + 1) (content.drop options.variant.blockSize.length) := by
  rw [blocksFrom, if_neg h]

/-- A piece that fills a block has a block of its own, and the rest follows. -/
theorem blocksFrom_append_of_length_eq (h : piece.length = options.variant.blockSize.length)
    (rest : Bytes) :
    blocksFrom options number (piece ++ rest) =
      pieceBlock options number piece :: blocksFrom options (number + 1) rest := by
  have hne : piece ++ rest ≠ [] := by
    have hpos := blockSize_pos options
    rw [← h, List.length_pos_iff] at hpos
    exact List.append_ne_nil_of_left_ne_nil hpos rest
  rw [blocksFrom_of_ne_nil hne, ← h, List.take_left, List.drop_left]

/-- Where a block ends, the blocks of what comes before are followed by those of the rest. -/
theorem blocksFrom_append {front : Bytes} {count : Nat}
    (h : front.length = count * options.variant.blockSize.length) (number : Nat) (rest : Bytes) :
    blocksFrom options number (front ++ rest) =
      blocksFrom options number front ++ blocksFrom options (number + count) rest := by
  induction count generalizing front number with
  | zero =>
    rw [Nat.zero_mul, List.length_eq_zero_iff] at h
    rw [h, blocksFrom_nil]
    rfl
  | succ count ih =>
    rw [Nat.succ_mul] at h
    have hpiece : (front.take options.variant.blockSize.length).length =
        options.variant.blockSize.length := by
      rw [List.length_take]
      omega
    have hrest : (front.drop options.variant.blockSize.length).length =
        count * options.variant.blockSize.length := by
      rw [List.length_drop]
      omega
    rw [← List.take_append_drop options.variant.blockSize.length front, List.append_assoc,
      blocksFrom_append_of_length_eq hpiece, blocksFrom_append_of_length_eq hpiece, ih hrest,
      List.cons_append]
    congr 3
    omega

/-- The payload of a block is its piece, filled up with padding. -/
theorem payload_pieceBlock (number : Nat) (h : piece.length ≤ options.variant.blockSize.length) :
    ∃ count, (pieceBlock options number piece).payload =
      piece ++ List.replicate count options.pad := by
  refine ⟨_, congrArg (· ++ _) (List.take_of_length_le ?_)⟩
  split
  · assumption
  · exact h

/-- A piece that fills a block is its payload. -/
theorem payload_pieceBlock_of_length_eq (h : piece.length = options.variant.blockSize.length) :
    (pieceBlock options number piece).payload = piece := by
  -- A block of the chosen size has no room for padding.
  have hsize : (if piece.length ≤ BlockSize.short.length then .short
      else options.variant.blockSize).length = piece.length := by
    rw [h]
    cases options.variant <;> decide
  change piece.take _ ++ List.replicate _ _ = piece
  rw [hsize, List.take_length, Nat.sub_self, List.replicate_zero, List.append_nil]

/-- The payloads of the blocks of a file are the file, filled up with padding. -/
theorem flatten_payload_blocksFrom (options : Options) (number : Nat) (content : Bytes) :
    ∃ count, ((blocksFrom options number content).map Block.payload).flatten =
      content ++ List.replicate count options.pad := by
  fun_induction blocksFrom options number content with
  | case1 => exact ⟨0, rfl⟩
  -- Only the last block can be filled up.
  | case2 number content hne ih =>
    rw [List.map_cons, List.flatten_cons]
    rcases Nat.lt_or_ge options.variant.blockSize.length content.length with hlong | hshort
    · -- The first block is full.
      obtain ⟨count, hrest⟩ := ih
      have hfull : (content.take options.variant.blockSize.length).length =
          options.variant.blockSize.length := by
        rw [List.length_take]
        omega
      refine ⟨count, ?_⟩
      rw [payload_pieceBlock_of_length_eq hfull, hrest, ← List.append_assoc,
        List.take_append_drop]
    · -- The first block is the last one.
      obtain ⟨count, hpayload⟩ := payload_pieceBlock number hshort
      refine ⟨count, ?_⟩
      rw [List.take_of_length_le hshort, List.drop_of_length_le hshort, blocksFrom_nil, hpayload]
      simp

/-- The last block of a longer file starts one block later than without its first block. -/
theorem lastStart_of_lt {size length : Nat} (hsize : 0 < size) (h : size < length) :
    lastStart size length = size + lastStart size (length - size) := by
  have hsub : length - 1 = (length - size - 1) + size := by omega
  rw [lastStart, lastStart, hsub, Nat.add_div_right _ hsize, Nat.succ_mul]
  omega

/-- The last block of a file that fits into one block starts at the beginning. -/
theorem lastStart_of_le {size length : Nat} (hsize : 0 < size) (h : length ≤ size) :
    lastStart size length = 0 := by
  have hdiv : (length - 1) / size = 0 := Nat.div_eq_of_lt (by omega)
  rw [lastStart, hdiv, Nat.zero_mul]

/-- A file of unknown length is put together from its blocks, the last one without the padding at
its end. -/
theorem contents_none_blocksFrom (options : Options) (number : Nat) (content : Bytes)
    (pad : UInt8) :
    Receiver.contents none pad ((blocksFrom options number content).map Block.payload) =
      content.take (lastStart options.variant.blockSize.length content.length) ++
        Receiver.stripPadding (lastPayload options content) pad := by
  fun_induction blocksFrom options number content with
  | case1 =>
    rw [List.take_nil]
    rfl
  | case2 number content hne ih =>
    have hsize := blockSize_pos options
    rw [List.map_cons]
    rcases Nat.lt_or_ge options.variant.blockSize.length content.length with hlong | hshort
    · -- The first block is full, and there are more.
      have hrest : content.drop options.variant.blockSize.length ≠ [] := by
        rw [ne_eq, List.drop_eq_nil_iff]
        omega
      have hmore : (blocksFrom options (number + 1)
          (content.drop options.variant.blockSize.length)).map Block.payload ≠ [] := by
        rw [blocksFrom_of_ne_nil hrest]
        exact List.cons_ne_nil _ _
      have hfull : (content.take options.variant.blockSize.length).length =
          options.variant.blockSize.length := by
        rw [List.length_take]
        omega
      have hlast : lastPayload options (content.drop options.variant.blockSize.length) =
          lastPayload options content := by
        simp only [lastPayload, hne, hrest, if_false, List.length_drop, List.drop_drop]
        rw [lastStart_of_lt hsize hlong]
      rw [Receiver.contents_none_cons hmore, payload_pieceBlock_of_length_eq hfull, ih, hlast,
        List.length_drop, lastStart_of_lt hsize hlong, List.take_add, List.append_assoc]
    · -- The first block is the last one.
      have hlast : lastPayload options content = (pieceBlock options number content).payload := by
        rw [lastPayload, if_neg hne, lastStart_of_le hsize hshort]
        rfl
      rw [List.take_of_length_le hshort, List.drop_of_length_le hshort, blocksFrom_nil, hlast,
        lastStart_of_le hsize hshort]
      rfl

/-- A file of declared length is put together exactly. -/
theorem contents_blocksFrom_length (options : Options) (number : Nat) (content : Bytes)
    (pad : UInt8) :
    Receiver.contents (some content.length) pad
      ((blocksFrom options number content).map Block.payload) = content := by
  obtain ⟨count, h⟩ := flatten_payload_blocksFrom options number content
  simp only [Receiver.contents, Receiver.stored, Receiver.heldBack, h]
  simp

/-- A file of unknown length loses padding in its last block only, if both sides fill up alike. -/
theorem contents_blocksFrom_of_pad_eq (options : Options) (number : Nat) (content : Bytes)
    {pad : UInt8} (hpad : pad = options.pad) :
    Receiver.contents none pad ((blocksFrom options number content).map Block.payload) =
      withoutPadding options.variant.blockSize.length pad content := by
  rw [contents_none_blocksFrom, withoutPadding]
  congr 1
  unfold lastPayload
  dsimp only
  split
  · rename_i hnil
    rw [hnil, List.drop_nil]
  · -- What is left for the last block fits into it, so the rest of it is padding.
    have hfit : (content.drop (lastStart options.variant.blockSize.length content.length)).length ≤
        options.variant.blockSize.length := by
      have hsize := blockSize_pos options
      have hdiv := Nat.div_add_mod' (content.length - 1) options.variant.blockSize.length
      have hmod := Nat.mod_lt (content.length - 1) hsize
      rw [List.length_drop, lastStart]
      omega
    obtain ⟨count, hpayload⟩ := payload_pieceBlock 0 hfit
    rw [hpayload, hpad, Receiver.stripPadding_append_replicate]

end Sender

/-- A file that does not end in padding is left as it is. -/
theorem withoutPadding_of_getLast?_ne {size : Nat} {pad : UInt8} {content : Bytes}
    (h : content.getLast? ≠ some pad) : withoutPadding size pad content = content := by
  rw [withoutPadding, Receiver.stripPadding_of_getLast?_ne, List.take_append_drop]
  rw [List.getLast?_drop]
  -- The last byte is in the last block, or that is empty.
  split
  · simp
  · exact h

/-- Padding before the last block of a file is left as it is. -/
theorem take_prefix_withoutPadding (size : Nat) (pad : UInt8) (content : Bytes) :
    content.take (Sender.lastStart size content.length) <+: withoutPadding size pad content :=
  List.prefix_append _ _

/-- Only padding at the end of a file is left out. -/
theorem withoutPadding_append_replicate (size : Nat) (pad : UInt8) (content : Bytes) :
    ∃ count, withoutPadding size pad content ++ List.replicate count pad = content := by
  obtain ⟨count, hcount⟩ := Receiver.stripPadding_append_stripped
    (content.drop (Sender.lastStart size content.length)) pad
  refine ⟨count, ?_⟩
  rw [withoutPadding, List.append_assoc, hcount, List.take_append_drop]

end BlockTransfer
