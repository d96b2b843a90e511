import Beansdb.Basic
import Beansdb.Tokenize
import Beansdb.Words
import Beansdb.Conn
import Beansdb.Iov
import Beansdb.Pending
import Beansdb.Transmit
import Beansdb.Shrink
import Beansdb.Get
import Beansdb.Numeral
import Beansdb.Command
import Beansdb.Machine
import Beansdb.Drain
import Beansdb.Reply
import Beansdb.GetReply
import Beansdb.Freelist
import Beansdb.Mfile
import Beansdb.Break
import Beansdb.Rbuf
import Beansdb.Cut
import Beansdb.Arm
import Beansdb.Stream
import Beansdb.Fields
import Beansdb.Grow
import Beansdb.Build
import Beansdb.Send
import Beansdb.Measure
import Beansdb.Passes
import Beansdb.Fault
import Beansdb.Halt
import Beansdb.World
import Beansdb.Pipeline
import Beansdb.Answer
