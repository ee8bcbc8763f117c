import Peeroxide.Chat.Invite
import Peeroxide.Chat.Reader
import Peeroxide.DeadDrop.Aimd
import Peeroxide.DeadDrop.FetchRetry
import Peeroxide.DeadDrop.NeedWatcher
import Peeroxide.DeadDrop.QueueSafety
import Peeroxide.DeadDrop.RoundTrip
import Peeroxide.Dht.DecodeSafety
import Peeroxide.Dht.FeedRefresh
import Peeroxide.Dht.Forwarding
import Peeroxide.Dht.IoCongestion
import Peeroxide.Dht.IoRetries
import Peeroxide.Dht.MuxIsolation
import Peeroxide.Dht.MuxOrder
import Peeroxide.Dht.MuxSafety
import Peeroxide.Dht.NodeBookkeeping
import Peeroxide.Dht.NodeFinished
import Peeroxide.Dht.NodeReping
import Peeroxide.Dht.NoiseWrap
import Peeroxide.Dht.QueryReplies
import Peeroxide.Dht.RelayQuota
import Peeroxide.Dht.Relaying
import Peeroxide.Dht.SecretFrames
import Peeroxide.Dht.Tokens
import Peeroxide.Swarm.Agreement
import Peeroxide.Swarm.Flush
import Peeroxide.Swarm.Retries
import Peeroxide.Udx.Ack
import Peeroxide.Udx.AsyncRead
import Peeroxide.Udx.FlushWindow
import Peeroxide.Udx.Link
import Peeroxide.Udx.MaxFilter
import Peeroxide.Udx.Recovery
import Peeroxide.Udx.Sack
import Peeroxide.Udx.Terminate
