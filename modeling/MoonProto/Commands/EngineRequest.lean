import MoonProto.Lib.Bytes

/-!
# Engine API requests

`commands/engine_request.rs`: the request envelope and the batches of a trades
resend request. The random request id of the source is an argument.
-/

namespace MoonProto

open Codec List

namespace EngineRequest

def engineRequestCmdId : UInt8 := 2
def currentProtoCmdVer : UInt16 := 4

/-- `EngineMethod::TradesResend`. -/
def tradesResendMethod : UInt8 := 17

/-- UTF-8 text behind a 16-bit length; a longer text is cut at the length modulo
2^16, as `as u16` does. -/
def writeString (bytes : Bytes) : Bytes :=
  u16Bytes (UInt16.ofNat bytes.length) ++ bytes.take (bytes.length % 65536)

def buildEngineRequestFull (uid : UInt64) (method : UInt8) (marketName : Bytes)
    (marketNames : List Bytes) (params : Bytes) : Bytes :=
  [engineRequestCmdId] ++ u16Bytes currentProtoCmdVer ++ u64Bytes uid ++ [method] ++
    writeString marketName ++ leEncode 4 marketNames.length ++
    marketNames.flatMap writeString ++ leEncode 4 params.length ++ params

/-- Parameters of one resend request: the count byte and the packet numbers. -/
def resendParams (packetNums : List UInt16) : Bytes :=
  [UInt8.ofNat packetNums.length] ++ packetNums.flatMap u16Bytes

/-- The loop of `trades_resend_batches`; `uids` are the ids drawn for the requests
still to be built. -/
def resendLoop (uids : Nat → UInt64) : Nat → List UInt16 → List Bytes
  | 0, _ => []
  | _ + 1, [] => []
  | fuel + 1, n :: ns =>
    buildEngineRequestFull (uids fuel) tradesResendMethod [] []
        (resendParams ((n :: ns).take 200)) ::
      resendLoop uids fuel ((n :: ns).drop 200)

def tradesResendBatches (uids : Nat → UInt64) (packetNums : List UInt16) : List Bytes :=
  resendLoop uids packetNums.length packetNums

/-! ## What the server reads -/

/-- The words of a parameter block. -/
def readWords : Bytes → List UInt16
  | a :: b :: rest => readU16 [a, b] :: readWords rest
  | _ => []

/-- The packet numbers of a resend request: behind the envelope of an empty market
list stand the count and that many words. -/
def resendNumbers (request : Bytes) : List UInt16 :=
  match request.drop 22 with
  | [] => []
  | count :: words => readWords (words.take (2 * count.toNat))

theorem readWords_flatMap : ∀ ns : List UInt16, readWords (ns.flatMap u16Bytes) = ns
  | [] => rfl
  | n :: ns => by
    have hcons : (n :: ns).flatMap u16Bytes =
        UInt8.ofNat n.toNat :: UInt8.ofNat (n.toNat / 256) :: ns.flatMap u16Bytes := rfl
    have hword : readU16 [UInt8.ofNat n.toNat, UInt8.ofNat (n.toNat / 256)] = n :=
      readU16_u16Bytes n
    rw [hcons, readWords, hword, readWords_flatMap ns]

theorem resendNumbers_build (uid : UInt64) {ns : List UInt16} (hlen : ns.length ≤ 200) :
    resendNumbers (buildEngineRequestFull uid tradesResendMethod [] [] (resendParams ns)) = ns := by
  have hwords : (ns.flatMap u16Bytes).length = 2 * ns.length := by
    rw [length_flatMap]
    simp [map_const', Nat.mul_comm]
  have hcount : (UInt8.ofNat ns.length).toNat = ns.length := by
    rw [UInt8.toNat_ofNat']
    omega
  have hdrop : (buildEngineRequestFull uid tradesResendMethod [] [] (resendParams ns)).drop 22 =
      resendParams ns := by
    have henvelope : ([engineRequestCmdId] ++ u16Bytes currentProtoCmdVer ++ u64Bytes uid ++
        [tradesResendMethod] ++ writeString [] ++ leEncode 4 ([] : List Bytes).length ++
        ([] : List Bytes).flatMap writeString
        ++ leEncode 4 (resendParams ns).length).length = 22 := by
      simp [writeString]
    rw [buildEngineRequestFull, ← henvelope, drop_left]
  rw [resendNumbers, hdrop]
  show readWords ((ns.flatMap u16Bytes).take (2 * (UInt8.ofNat ns.length).toNat)) = ns
  rw [hcount, ← hwords, take_length, readWords_flatMap]

/-- The batches list every number once and in order. -/
theorem resendLoop_numbers (uids : Nat → UInt64) : ∀ (fuel : Nat) (ns : List UInt16),
    ns.length ≤ fuel → (resendLoop uids fuel ns).flatMap resendNumbers = ns
  | 0, ns, h => by rw [eq_nil_of_length_eq_zero (Nat.le_zero.mp h)]; rfl
  | _ + 1, [], _ => rfl
  | fuel + 1, n :: ns, h => by
    have hfirst : ((n :: ns).take 200).length ≤ 200 := length_take_le _ _
    have hrest : ((n :: ns).drop 200).length ≤ fuel := by
      rw [length_cons] at h
      rw [length_drop, length_cons]
      omega
    rw [resendLoop, flatMap_cons, resendNumbers_build _ hfirst,
      resendLoop_numbers uids fuel _ hrest, take_append_drop]

theorem tradesResendBatches_numbers (uids : Nat → UInt64) (ns : List UInt16) :
    (tradesResendBatches uids ns).flatMap resendNumbers = ns :=
  resendLoop_numbers uids ns.length ns (Nat.le_refl _)

end EngineRequest

end MoonProto
