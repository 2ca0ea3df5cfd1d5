import BlockTransfer.AbortSignal
import BlockTransfer.Main
import BlockTransfer.Pipe
import BlockTransfer.Proofs.Abort
import BlockTransfer.Proofs.Accounts
import BlockTransfer.Proofs.Batch
import BlockTransfer.Proofs.Chunking
import BlockTransfer.Proofs.Detection
import BlockTransfer.Proofs.Endings
import BlockTransfer.Proofs.Header.NormalForm
import BlockTransfer.Proofs.LateStart
import BlockTransfer.Proofs.Line.Caller
import BlockTransfer.Proofs.Lossy
import BlockTransfer.Proofs.Receiver.Cancel
import BlockTransfer.Proofs.Receiver.Closing
import BlockTransfer.Proofs.Receiver.Confinement
import BlockTransfer.Proofs.Receiver.EndMarks
import BlockTransfer.Proofs.Receiver.Framing
import BlockTransfer.Proofs.Receiver.Progress
import BlockTransfer.Proofs.Receiver.Repetition
import BlockTransfer.Proofs.Receiver.Streaming
import BlockTransfer.Proofs.Sender.Attempts
import BlockTransfer.Proofs.Sender.Breakdown
import BlockTransfer.Proofs.Sender.Noise
import BlockTransfer.Proofs.Sender.Transcript
import BlockTransfer.Proofs.Settings
import BlockTransfer.Script.Device
import BlockTransfer.Script.DiskRehearsal
import BlockTransfer.Sink.Memory
import BlockTransfer.Version
