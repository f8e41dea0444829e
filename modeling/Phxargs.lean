import Phxargs.Proofs.DelimTokenizer
import Phxargs.Proofs.Substitution
import Phxargs.Proofs.Parallelism
import Phxargs.Proofs.SizeLimit
import Phxargs.Proofs.LineMode
import Phxargs.Proofs.Replacer
import Phxargs.Proofs.Signals
import Phxargs.Proofs.Stdio
import Phxargs.Proofs.Limit
import Phxargs.Proofs.Halt
import Phxargs.Proofs.Reaping
import Phxargs.Proofs.Foreign
import Phxargs.Proofs.Environment
import Phxargs.Proofs.Delimiters
import Phxargs.Proofs.StrReplace
import Phxargs.Lib.Override
import Phxargs.Proofs.OptionOrder
import Phxargs.Model.TokenSource
import Phxargs.Proofs.EmptyMarker
import Phxargs.Proofs.JoinedInput
import Phxargs.Proofs.ExitStatus
import Phxargs.Model.CommandSlots
import Phxargs.Proofs.Accounting
import Phxargs.Model.Exec
import Phxargs.Proofs.ExecLimit
import Phxargs.Proofs.Memory.Tokenizers
import Phxargs.Proofs.Programs
import Phxargs.Proofs.Schedule
import Phxargs.Proofs.Numbers
import Phxargs.Proofs.Transport
import Phxargs.Proofs.Optimality
import Phxargs.Proofs.Streaming
import Phxargs.Proofs.OptionKinds
import Phxargs.Proofs.Prompt
import Phxargs.Proofs.OnHeap.Main
