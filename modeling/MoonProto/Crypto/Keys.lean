import MoonProto.Crypto.Codec

/-!
# Session keys

`src/crypto/keys.rs`: the keys of a session and the short session tag are
derived from a long-term key by a SHAKE-128 fold. SHAKE-128 is a parameter, the
function from the absorbed bytes to the 16 bytes that are read.
-/

namespace MoonProto

open Codec

def xorConstEncode : UInt64 := 0xE59DA7C3B8D49E25
def xorConstDecode : UInt64 := 0xA3DE5C49E365A5D7
def ackSessionSalt : UInt64 := 0x31535345534B4341

section Keys

variable (shake128 : Bytes → MoonKey)

def xorKeys (a b : MoonKey) : MoonKey := Vector.zipWith (· ^^^ ·) a b

/-- The rounds behind the first one: rehash the last block, fold it in. -/
def subKeyRounds (masterKey : MoonKey) : Nat → MoonKey → MoonKey → MoonKey
  | 0, _, result => result
  | n + 1, tmp, result =>
    let tmp := shake128 (masterKey.toList ++ tmp.toList)
    subKeyRounds masterKey n tmp (xorKeys result tmp)

def generateSessionSubKey (masterKey : MoonKey) (clientId serverToken : UInt64)
    (sessionRnd : Vector UInt8 16) (directionToken : UInt64) : MoonKey :=
  let tmp := shake128 (masterKey.toList ++ (u64Bytes clientId ++ (u64Bytes serverToken
    ++ (sessionRnd.toList ++ u64Bytes directionToken))))
  subKeyRounds shake128 masterKey 4 tmp tmp

/-- Encode key and decode key of the client. -/
def generateSessionSubKeys (masterKey : MoonKey) (clientId serverToken : UInt64)
    (sessionRnd : Vector UInt8 16) : MoonKey × MoonKey :=
  (generateSessionSubKey shake128 masterKey clientId serverToken sessionRnd xorConstDecode,
    generateSessionSubKey shake128 masterKey clientId serverToken sessionRnd xorConstEncode)

/-- The two halves of a block added up. -/
def foldHalves (block : MoonKey) : UInt64 :=
  readU64 (block.toList.take 8) + readU64 (block.toList.drop 8)

def ackSession32 (macKey : MoonKey) (clientId serverToken : UInt64)
    (sessionRnd : Vector UInt8 16) : UInt32 :=
  if serverToken = 0 then 0
  else (foldHalves (generateSessionSubKey shake128 macKey clientId serverToken sessionRnd
    ackSessionSalt)).toUInt32

def calculateHelloAgainPeerMix (rnd : Vector UInt8 16) (mixTs serverToken : UInt64)
    (sessionRnd : Vector UInt8 16) : UInt64 :=
  foldHalves (shake128 (rnd.toList ++ (u64Bytes mixTs ++ (u64Bytes serverToken
    ++ sessionRnd.toList))))

end Keys

end MoonProto
