import Segment.Numeral
import Segment.Utf8
import Segment.Frame
import Segment.Codec
import Segment.ParseBehaviour
import Segment.Connection
import Segment.Keyspace
import Segment.Command
import Segment.Handler
import Segment.ErrorClasses
import Segment.Interleaving
import Segment.Visibility
import Segment.Server
import Segment.Responses
import Segment.Eviction
import Segment.Client
