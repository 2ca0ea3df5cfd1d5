import BlockTransfer.Proofs.Contents
import BlockTransfer.Proofs.Header

/-!
# Journeys

What a sender has to get across, in order: the header of a file in a batch, the blocks of its
data, its end, and the end of the batch. Each `Leg` of this journey is one message on the line. A
receiver that is given the legs in order, each of them once, stores the files that `outcome` says.

## Main definitions

* `Leg`: what one message of a sender conveys.
* `journey`: the legs of a transfer.
* `Route`: legs that may follow each other.
* `outcome`: the files that a receiver makes of legs.

## Main results

* `route_journey_ymodem` and `route_journey_xmodem`: a journey is a route.
* `outcome_journey`: the files of a journey come out in order, with the contents that
  `Receiver.contents` gives.
-/

namespace BlockTransfer

/-- What one message of a sender conveys. -/
inductive Leg
  /-- A file with this header begins. -/
  | header (file : FileHeader)
  /-- A block of the file. -/
  | data (block : Block)
  /-- The file ends. -/
  | endOfFile
  /-- The batch ends. -/
  | endOfBatch
  deriving DecidableEq

namespace Leg

/-- The block that conveys a leg, unless a single byte does. -/
def block? : Leg → Option Block
  | .header file => some file.toBlock
  | .data piece => some piece
  | .endOfFile => none
  | .endOfBatch => some FileHeader.endOfBatch

/-- The bytes that convey a leg. -/
def message (trailer : Trailer) (leg : Leg) : Bytes :=
  match leg.block? with
  | some block => block.encode trailer
  | none => [Control.eot.byte]

/-- Whether a leg is a block of data. -/
def isData : Leg → Bool
  | .data _ => true
  | .header _ | .endOfFile | .endOfBatch => false

theorem message_ne_nil (trailer : Trailer) (leg : Leg) : leg.message trailer ≠ [] := by
  unfold message
  split
  · exact List.cons_ne_nil _ _
  · exact List.cons_ne_nil _ _

end Leg

/-- The number of data blocks among legs. -/
def blockCount (legs : List Leg) : Nat :=
  legs.countP Leg.isData

/-- The legs that convey the rest of a file, whose first block has the given number. -/
def fileLegs (options : Options) (number : Nat) (content : Bytes) : List Leg :=
  (Sender.blocksFrom options number content).map Leg.data ++ [.endOfFile]

/-- The legs that announce a file. -/
def headerLegs (options : Options) (header : FileHeader) : List Leg :=
  match options.protocol with
  | .xmodem => []
  | .ymodem => [.header header]

/-- The legs that convey files, given by their headers and contents. -/
def journey (options : Options) : List (FileHeader × Bytes) → List Leg
  | [] =>
    match options.protocol with
    | .xmodem => []
    | .ymodem => [.endOfBatch]
  | (header, content) :: files =>
    headerLegs options header ++ (fileLegs options 1 content ++ journey options files)

/-- Legs that may follow each other. The stage is the number of blocks of the current file that
came before, or `none` between files. -/
inductive Route (protocol : Protocol) : Option Nat → List Leg → Prop
  /-- The next block of the file comes. -/
  | data {count : Nat} {block : Block} {legs : List Leg}
      (hnumber : block.number = UInt8.ofNat (count + 1))
      (h : Route protocol (some (count + 1)) legs) :
      Route protocol (some count) (.data block :: legs)
  /-- The file ends. -/
  | endOfFile {count : Nat} {legs : List Leg} (h : Route protocol none legs) :
      Route protocol (some count) (.endOfFile :: legs)
  /-- The next file of a batch begins. -/
  | header {header : FileHeader} {legs : List Leg} (hprotocol : protocol = .ymodem)
      (hparse : FileHeader.parse header.toBlock.payload = .ok (some header.received))
      (h : Route protocol (some 0) legs) : Route protocol none (.header header :: legs)
  /-- The batch ends. -/
  | endOfBatch (hprotocol : protocol = .ymodem) : Route protocol none [.endOfBatch]
  /-- There are no batches. -/
  | done (hprotocol : protocol = .xmodem) : Route protocol none []

/-- The files that a receiver makes of legs, given the header of the current file and the payloads
of its blocks that came before. -/
def outcome (pad : UInt8) : Option FileHeader → List Bytes → List Leg → List (ReceivedFile × Bytes)
  | _, _, [] => []
  | _, _, .header header :: legs => outcome pad (some header.received) [] legs
  | header, payloads, .data block :: legs => outcome pad header (payloads ++ [block.payload]) legs
  | header, payloads, .endOfFile :: legs =>
    let data := Receiver.contents (Receiver.declaredLength header) pad payloads
    (⟨header, data.length⟩, data) :: outcome pad none [] legs
  | _, _, .endOfBatch :: _ => []

/-! ## The legs of a journey -/

section Journey

variable {options : Options} {number : Nat} {content : Bytes} {legs : List Leg}

@[simp]
theorem fileLegs_nil : fileLegs options number [] = [.endOfFile] := by
  rw [fileLegs, Sender.blocksFrom_nil]
  rfl

theorem fileLegs_of_ne_nil (h : content ≠ []) :
    fileLegs options number content =
      .data (Sender.pieceBlock options number
        (content.take options.variant.blockSize.length)) ::
        fileLegs options (number + 1) (content.drop options.variant.blockSize.length) := by
  rw [fileLegs, Sender.blocksFrom_of_ne_nil h]
  rfl

/-- The legs of a file are a route. -/
theorem route_fileLegs {protocol : Protocol} (h : Route protocol none legs) :
    Route protocol (some number) (fileLegs options (number + 1) content ++ legs) := by
  -- The induction is on the blocks, the first of which has any number.
  generalize hnext : number + 1 = next
  unfold fileLegs
  fun_induction Sender.blocksFrom options next content generalizing number with
  | case1 => exact .endOfFile h
  | case2 next content hne ih =>
    subst hnext
    exact .data rfl (ih rfl)

/-- The legs of a batch are a route, if every file has a name. -/
theorem route_journey_ymodem {files : List (FileHeader × Bytes)}
    (hymodem : options.protocol = .ymodem)
    (hnames : ∀ file ∈ files, file.1.name ≠ "" ∧ ∀ c ∈ file.1.name.toList, c.toNat ≠ 0) :
    Route .ymodem none (journey options files) := by
  induction files with
  | nil =>
    simp only [journey, hymodem]
    exact .endOfBatch rfl
  | cons file files ih =>
    obtain ⟨hne, hnul⟩ := hnames file List.mem_cons_self
    have hrest := ih fun next hnext => hnames next (List.mem_cons_of_mem file hnext)
    simp only [journey, headerLegs, hymodem]
    exact .header rfl (FileHeader.parse_toBlock hne hnul) (route_fileLegs hrest)

/-- The legs of a single file are a route. -/
theorem route_journey_xmodem {file : FileHeader × Bytes} (hxmodem : options.protocol = .xmodem) :
    Route .xmodem (some 0) (journey options [file]) := by
  simp only [journey, headerLegs, hxmodem]
  exact route_fileLegs (.done rfl)

theorem blockCount_cons (leg : Leg) (legs : List Leg) :
    blockCount (leg :: legs) = blockCount legs + if leg.isData then 1 else 0 := by
  rw [blockCount, List.countP_cons]
  rfl

/-! ## The files of a journey -/

/-- The blocks of a file are put together at its end. -/
theorem outcome_fileLegs (pad : UInt8) (header : Option FileHeader) (payloads : List Bytes) :
    outcome pad header payloads (fileLegs options number content ++ legs) =
      let data := Receiver.contents (Receiver.declaredLength header) pad
        (payloads ++ (Sender.blocksFrom options number content).map Block.payload)
      (⟨header, data.length⟩, data) :: outcome pad none [] legs := by
  unfold fileLegs
  generalize Sender.blocksFrom options number content = blocks
  induction blocks generalizing payloads with
  | nil => simp [outcome]
  | cons block blocks ih =>
    simp only [List.map_cons, List.cons_append, outcome]
    rw [ih]
    simp

/-- What a receiver knows about a file of a journey. -/
def receivedHeader (options : Options) (header : FileHeader) : Option FileHeader :=
  match options.protocol with
  | .xmodem => none
  | .ymodem => some header.received

/-- What a receiver makes of a file of a journey. -/
def arrival (options : Options) (pad : UInt8) (file : FileHeader × Bytes) : ReceivedFile × Bytes :=
  let header := receivedHeader options file.1
  let data := Receiver.contents (Receiver.declaredLength header) pad
    ((Sender.blocksFrom options 1 file.2).map Block.payload)
  (⟨header, data.length⟩, data)

/-- The files of a journey come out in order. -/
theorem outcome_journey (options : Options) (pad : UInt8) (files : List (FileHeader × Bytes)) :
    outcome pad none [] (journey options files) = files.map (arrival options pad) := by
  induction files with
  | nil =>
    unfold journey
    cases options.protocol <;> rfl
  | cons file files ih =>
    rw [List.map_cons, ← ih, journey]
    -- The header of a batch is what the blocks are put together with.
    cases hprotocol : options.protocol with
    | xmodem =>
      simp only [headerLegs, hprotocol, List.nil_append]
      rw [outcome_fileLegs]
      simp [arrival, receivedHeader, hprotocol]
    | ymodem =>
      simp only [headerLegs, hprotocol, List.singleton_append, outcome]
      rw [outcome_fileLegs]
      simp [arrival, receivedHeader, hprotocol]

/-- A length that a receiver knows is the length of the file, if that has been declared right. -/
theorem declaredLength_receivedHeader {file : FileHeader × Bytes}
    (hlength : ∀ length, file.1.length = some length → length.toNat = file.2.length)
    (h : Receiver.declaredLength (receivedHeader options file.1) ≠ none) :
    Receiver.declaredLength (receivedHeader options file.1) = some file.2.length := by
  cases hprotocol : options.protocol with
  | xmodem =>
    rw [receivedHeader, hprotocol] at h
    exact absurd rfl h
  | ymodem =>
    rw [receivedHeader, hprotocol] at h ⊢
    change file.1.received.length.map UInt64.toNat ≠ none at h
    change file.1.received.length.map UInt64.toNat = some file.2.length
    -- The length is left out where the block has no room for it, and otherwise it is as declared.
    rcases file.1.length_received with hnone | hsame
    · rw [hnone] at h
      exact absurd rfl h
    · rw [hsame] at h ⊢
      cases hdeclared : file.1.length with
      | none =>
        rw [hdeclared] at h
        exact absurd rfl h
      | some length => rw [Option.map_some, hlength length hdeclared]

/-- A file whose declared length has arrived comes out as it is. -/
theorem arrival_of_length (pad : UInt8) {file : FileHeader × Bytes}
    (h : Receiver.declaredLength (receivedHeader options file.1) = some file.2.length) :
    arrival options pad file = (⟨receivedHeader options file.1, file.2.length⟩, file.2) := by
  simp only [arrival, h, Sender.contents_blocksFrom_length]

/-- A file whose length is not known comes out without the padding in its last block. -/
theorem arrival_of_pad_eq {pad : UInt8} {file : FileHeader × Bytes} (hpad : pad = options.pad)
    (h : Receiver.declaredLength (receivedHeader options file.1) = none) :
    let data := withoutPadding options.variant.blockSize.length pad file.2
    arrival options pad file = (⟨receivedHeader options file.1, data.length⟩, data) := by
  simp only [arrival, h, Sender.contents_blocksFrom_of_pad_eq options 1 file.2 hpad]

/-- A file whose length is not known comes out without the padding that the receiver finds at the
end of its last block. -/
theorem arrival_of_unknown (pad : UInt8) {file : FileHeader × Bytes}
    (h : Receiver.declaredLength (receivedHeader options file.1) = none) :
    (arrival options pad file).2 =
      file.2.take (Sender.lastStart options.variant.blockSize.length file.2.length) ++
        Receiver.stripPadding (Sender.lastPayload options file.2) pad := by
  simp only [arrival, h, Sender.contents_none_blocksFrom]

/-- A file without a header comes out without the padding in its last block. -/
theorem arrival_of_xmodem {pad : UInt8} (hxmodem : options.protocol = .xmodem)
    (hpad : pad = options.pad) (file : FileHeader × Bytes) :
    let data := withoutPadding options.variant.blockSize.length pad file.2
    arrival options pad file = (⟨none, data.length⟩, data) := by
  have hheader : receivedHeader options file.1 = none := by
    rw [receivedHeader, hxmodem]
  have hunknown : Receiver.declaredLength (receivedHeader options file.1) = none := by
    rw [hheader]
    rfl
  rw [arrival_of_pad_eq hpad hunknown, hheader]

end Journey

end BlockTransfer
