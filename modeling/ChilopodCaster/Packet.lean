import ChilopodCaster.Bytes

/-!
# Packets

The packets of `packet.h`, what sources send and subscribers receive. Reference counts are left out:
a packet is a value here, and nothing frees it while it is in use.
-/

namespace ChilopodCaster

/-- `enum packet_state`. -/
inductive PacketState
  | raw
  | rtcmUnchecked
  | rtcmChecked
  deriving DecidableEq, Repr

/-- `struct packet`. Its field `datalen` is the length of `data`. -/
structure Packet where
  rtcmState : PacketState
  data : List Byte
  deriving DecidableEq, Repr

namespace Packet

/-- `p->datalen`. -/
def datalen (p : Packet) : ℕ := p.data.length

/-- `packet_new(len)`, once its `data` is filled: a raw packet. -/
def new (data : List Byte) : Packet := ⟨.raw, data⟩

end Packet

end ChilopodCaster
