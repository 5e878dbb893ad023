import Telephony.Jitter.FixedResynch
import Telephony.Udptl.Bounds
import Telephony.Udptl.Transmit
import Telephony.Udptl.Sequence
import Telephony.Udptl.Redundancy
import Telephony.Udptl.FecSlots
import Telephony.Udptl.FecRepair
import Telephony.Ao2.Iterator
import Telephony.Rtp.Retransmit
import Telephony.Rtp.Extended
import Telephony.Rtp.Rtcp
import Telephony.Rtp.Interpret
import Telephony.Jitter.AdaptiveHistory
import Telephony.Jitter.AdaptiveLost
import Telephony.Rtp.StrictRtp
import Telephony.Rtp.Missing
import Telephony.Rtp.TransportCcFeedback
import Telephony.Sched.Ownership
import Telephony.Iax2.Ack
import Telephony.Iax2.ParseIes
import Telephony.Threadpool.Serializer
import Telephony.Threadpool.Stranding
import Telephony.Pbx.Engines
import Telephony.StringFields.Sound
import Telephony.Websocket.Reassembly
import Telephony.Rtp.PayloadCodes
import Telephony.Confbridge.Membership
import Telephony.Http.Framing
import Telephony.Strings.Substring
import Telephony.Formats.Negotiation
import Telephony.Heap.MaxHeap
import Telephony.Udptl.MaxIfp
import Telephony.Ao2.SortedHash
import Telephony.Ao2.RbSearch
import Telephony.Dialplan.Order
import Telephony.Dialplan.Includes
import Telephony.Audio.Smoother
import Telephony.Strings.Uri
import Telephony.Translate.Index
import Telephony.Translate.Path
import Telephony.Iax2.Timestamps
import Telephony.Iax2.TrunkSpace
import Telephony.Event.Elements
import Telephony.Iax2.Encryption
