import BlockTransfer.Options.Json
import BlockTransfer.Serial

/-!
# The command line

The transfer tool as a function of its arguments. Arguments are taken from left to right; a
settings file is loaded as soon as it is named, and the first thing that is wrong ends the run.
The tool gets as far as opening the serial device, and reports why that fails.
-/

namespace BlockTransfer.CommandLine

/-- An error as it is told to the user: what was attempted, and its causes, each the cause of the
one before. -/
structure Failure where
  /-- What was attempted, or what is wrong. -/
  message : String
  /-- The causes. -/
  causes : List String := []
  deriving DecidableEq, Repr

/-- The lines of the causes, numbered if there are several. -/
def Failure.causeLines (causes : List String) : List String :=
  match causes with
  | [cause] => ["    " ++ cause]
  | _ => causes.mapIdx fun i cause => "    " ++ Numeral.decimal i ++ ": " ++ cause

/-- The text of an error. -/
def Failure.text (failure : Failure) : String :=
  let lines :=
    ("Error: " ++ failure.message) ::
      if failure.causes.isEmpty then []
      else "" :: "Caused by:" :: Failure.causeLines failure.causes
  "\n".intercalate lines ++ "\n"

/-- The direction of the transfer. -/
inductive Mode
  | send
  | receive
  deriving DecidableEq, Repr

/-- The system that the tool runs on. -/
structure Host where
  /-- Reads a file. -/
  readFile : String → Except IoError Bytes
  /-- The reason for which a serial device cannot be opened. -/
  openDevice : String → OpenFault

/-- What the arguments ask for. -/
structure Request where
  /-- The direction, once it is given. -/
  mode : Option Mode := none
  /-- The name of the serial device. -/
  device : String := "/dev/ttyUSB0"
  /-- The speed in baud. -/
  baudRate : Nat := Serial.defaultBaudRate
  /-- Protocol, variant and settings. -/
  options : Options := { protocol := .xmodem, variant := .crc }
  /-- The files to send, or the destination. -/
  paths : List String := []

/-- Why the reading of arguments ends. -/
inductive Stop
  /-- Help is asked for. -/
  | help
  /-- Something is wrong. -/
  | failure (f : Failure)

/-- The text of the help. -/
def help : String :=
  "\n".intercalate
    ["XMODEM/YMODEM transfer tool",
      "",
      "Usage:",
      "  xfer send [OPTIONS] FILE...",
      "  xfer receive [OPTIONS] DEST",
      "",
      "Options:",
      "  --port PORT       Serial port (default: /dev/ttyUSB0)",
      "  --baud RATE       Baud rate (default: 115200)",
      "  --protocol NAME   xmodem or ymodem (default: xmodem)",
      "  --variant NAME    checksum, crc, 1k or g (default: crc)",
      "  --text            Pad with CTRL-Z instead of NUL",
      "  --config FILE     JSON timeout/retry settings",
      ""]

/-- An option that takes a value. -/
inductive Flag
  | device
  | baud
  | protocol
  | variant
  | config
  deriving DecidableEq, Repr

/-- The name of an option in messages. -/
def Flag.name : Flag → String
  | .device => "--port"
  | .baud => "--baud"
  | .protocol => "--protocol"
  | .variant => "--variant"
  | .config => "--config"

/-- The option with a given spelling. -/
def Flag.ofSpelling? : String → Option Flag
  | "--port" | "-p" => some .device
  | "--baud" | "-b" => some .baud
  | "--protocol" => some .protocol
  | "--variant" => some .variant
  | "--config" => some .config
  | _ => none

/-- Ends the reading with a message that has no causes. -/
def wrong {α : Type} (message : String) : Except Stop α :=
  .error (.failure { message })

/-- Takes an option with its value. -/
def Flag.apply (host : Host) (flag : Flag) (value : String) (request : Request) :
    Except Stop Request :=
  match flag with
  | .device => .ok { request with device := value }
  | .baud =>
    match Numeral.read 10 UInt32.size value.toList with
    | .ok baudRate => .ok { request with baudRate }
    | .error fault => .error (.failure ⟨"--baud expects a number", [fault.message]⟩)
  | .protocol =>
    match Protocol.ofName? value with
    | some p => .ok { request with options := { request.options with protocol := p } }
    | none => wrong ("unknown protocol '" ++ value ++ "'")
  | .variant =>
    match Variant.ofName? value with
    | some v => .ok { request with options := { request.options with variant := v } }
    | none => wrong ("unknown variant '" ++ value ++ "'")
  | .config =>
    match Config.loadFile (host.readFile value) with
    -- Settings are checked as they are loaded, before any later argument is looked at.
    | .ok c => .ok { request with options := { request.options with config := c } }
    | .error e => .error (.failure ⟨"loading " ++ value, e.message :: e.cause?.toList⟩)

/-- Takes an argument that is not an option with a value. -/
def takeWord (word : String) (request : Request) : Except Stop Request :=
  match word with
  | "send" => .ok { request with mode := some .send }
  | "receive" | "recv" => .ok { request with mode := some .receive }
  | "--text" => .ok { request with options := { request.options with textMode := true } }
  | "--help" | "-h" => .error .help
  | _ =>
    -- A lone dash is an option as well, and an unknown one.
    if word.toList.head? = some '-' then wrong ("unknown option '" ++ word ++ "'")
    else .ok { request with paths := request.paths ++ [word] }

/-- Takes arguments from left to right. -/
def read (host : Host) (request : Request) : List String → Except Stop Request
  | [] => .ok request
  | [word] =>
    match Flag.ofSpelling? word with
    | some flag => wrong (flag.name ++ " expects a value")
    | none => takeWord word request
  | word :: next :: rest =>
    match Flag.ofSpelling? word with
    | some flag =>
      match flag.apply host next request with
      | .ok request => read host request rest
      | .error stop => .error stop
    | none =>
      match takeWord word request with
      | .ok request => read host request (next :: rest)
      | .error stop => .error stop

/-- What a run of the tool leaves behind. -/
structure Output where
  /-- The exit code. -/
  code : Nat
  /-- What was printed. -/
  stdout : String := ""
  /-- What was printed as errors. -/
  stderr : String := ""
  deriving DecidableEq, Repr

/-- The output of a run that ends with an error. -/
def Output.failed (failure : Failure) (stdout : String := "") : Output :=
  { code := 1, stdout, stderr := failure.text }

/-- The error of opening a device. -/
def openFailure (device : String) (fault : OpenFault) : Failure where
  message := "opening " ++ device
  causes := [(Serial.openError fault).message, fault.deviceError.text]

/-- The run of the tool with the given arguments. -/
def run (host : Host) (args : List String) : Output :=
  match read host {} args with
  | .error .help => { code := 0, stdout := help }
  | .error (.failure f) => Output.failed f
  | .ok request =>
    match request.mode with
    -- Help is printed as output, the error beside it.
    | none => Output.failed { message := "expected 'send' or 'receive'" } help
    | some _ =>
      match request.options.check with
      | some e => Output.failed { message := e.message }
      | none => Output.failed (openFailure request.device (host.openDevice request.device))

/-- The values that the arguments may give an option: whatever follows it. -/
def values (flag : Flag) : List String → List String
  | word :: value :: rest =>
    if Flag.ofSpelling? word = some flag then value :: values flag (value :: rest)
    else values flag (value :: rest)
  | _ => []

end BlockTransfer.CommandLine
