import MoonProto.Crypto.Codec

/-!
# The handshake record

`src/protocol/handshake.rs`: the 56-byte record that Hello, WhoAreYou, ImFriend,
HelloAgain, Fine and WantNewHello carry, and the associated data that binds it
to a client and a command. The time stamp is the bit pattern of its `f64` and
travels with `mix_ts` added.
-/

namespace MoonProto

open Codec

/-- `HELLO_SIZE`. -/
def helloSize : Nat := 56

structure Hello where
  rnd : Vector UInt8 16
  mixTs : UInt64
  timestamp : UInt64
  serverToken : UInt64
  peerMix : UInt64
  appToken : UInt64
deriving DecidableEq

namespace Hello

/-- `to_bytes_packed`. -/
def toBytesPacked (h : Hello) : Bytes :=
  h.rnd.toList ++ (u64Bytes h.mixTs ++ (u64Bytes (h.timestamp + h.mixTs)
    ++ (u64Bytes h.serverToken ++ (u64Bytes h.peerMix ++ u64Bytes h.appToken))))

/-- The 16 bytes of a record at `off`. -/
def rndField (data : Bytes) (off : Nat) : Vector UInt8 16 :=
  Vector.ofFn fun i => byteAt data (off + i)

def fromBytes (data : Bytes) : Option Hello :=
  if data.length < helloSize then none
  else
    let mixTs := readU64 (field data 16 8)
    some {
      rnd := rndField data 0
      mixTs
      timestamp := readU64 (field data 24 8) - mixTs
      serverToken := readU64 (field data 32 8)
      peerMix := readU64 (field data 40 8)
      appToken := readU64 (field data 48 8) }

end Hello

/-- `handshake_aad`: client id and command. -/
def handshakeAad (clientId : UInt64) (cmd : UInt8) : Bytes := u64Bytes clientId ++ [cmd]

end MoonProto
