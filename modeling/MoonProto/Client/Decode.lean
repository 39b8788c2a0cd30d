import MoonProto.Compression.RoundTrip
import MoonProto.Protocol.Command
import MoonProto.Protocol.Crypted

/-!
# Decoding a command

The decode half of receiving one command (`src/client/protocol_helpers.rs`):
decryption, the gate that keeps sensitive plaintext out, decompression, and the
gate for plaintext API responses. The source has it twice, on borrowed bytes and
on an owned buffer that is decrypted in place; both are modelled and the end of
the module shows that they agree.
-/

namespace MoonProto

open Codec SynLZ Option

/-! ## The model of the code -/

/-- The receive state that decoding uses (`DataReadState`). -/
structure DataReadState where
  decodeCipher : Option MoonKey
  slider : Slider
deriving DecidableEq

/-- An engine method is its ordinal. -/
structure EngineMethod where
  toByte : UInt8
deriving DecidableEq

namespace EngineMethod

def getMarketsList : EngineMethod := ⟨3⟩
def updateMarketsList : EngineMethod := ⟨4⟩
def requestCandlesData : EngineMethod := ⟨24⟩

/-- The bulk methods whose responses may be plaintext. -/
def isPublicBulk (m : EngineMethod) : Bool :=
  m = getMarketsList || m = updateMarketsList || m = requestCandlesData

end EngineMethod

structure EngineResponseMeta where
  requestUid : UInt64
  method : EngineMethod
  success : Bool
deriving DecidableEq

/-- `engine_response_meta_from_payload`. -/
def engineResponseMeta (payload : Bytes) : Option EngineResponseMeta :=
  if payload.length < 11 then none
  else do
    let requestUid ← (slice payload 11 19).map readU64
    let method ← payload[19]?
    let success ← payload[20]?
    let _errorCode ← slice payload 21 25
    let len ← (slice payload 25 27).map readU16
    let _errorMsg ← slice payload 27 (27 + len.toNat)
    some ⟨requestUid, ⟨method⟩, success != 0⟩

/-- `drop_plaintext_sensitive`. -/
def dropPlaintextSensitive (realCmd : UInt8) : Bool :=
  [Command.order, Command.strat, Command.ui, Command.balance, Command.logMsg,
    Command.needHelloAgain, Command.sessionClose].contains (Command.fromByte realCmd)

/-- `drop_plaintext_api`. -/
def dropPlaintextApi (payload : Bytes) : Bool :=
  match engineResponseMeta payload with
  | some info => !info.method.isPublicBulk
  | none => true

/-- The gate behind decompression: a plaintext API response that is not one of
the public bulk ones. -/
def blocksApi (wasCrypted : Bool) (cmd : UInt8) (payload : Bytes) : Bool :=
  !wasCrypted && cmd &&& 0x7F == Command.api.toByte && dropPlaintextApi payload

/-- What follows decryption in `decode_command_payload_shared`. -/
def gateShared (wasCrypted : Bool) (cmd : UInt8) (payload : Bytes) : Option (UInt8 × Bytes) :=
  if !wasCrypted && dropPlaintextSensitive (cmd &&& 0x7F) then none
  else
    (if cmd &&& compressedFlag ≠ 0 then (mpDecompress payload).map fun d => (cmd &&& 0x7F, d)
      else some (cmd, payload)).bind fun r =>
    if blocksApi wasCrypted r.1 r.2 then none
    else some r

/-- What follows decryption in `decode_command_payload_owned`. -/
def gateOwned (wasCrypted : Bool) (cmd : UInt8) (payload : Payload) : Option (UInt8 × Payload) :=
  if !wasCrypted && dropPlaintextSensitive (cmd &&& 0x7F) then none
  else
    (if cmd &&& compressedFlag ≠ 0 then
        (mpDecompress payload.view).map fun d => (cmd &&& 0x7F, Payload.ofBytes d)
      else some (cmd, payload)).bind fun r =>
    if blocksApi wasCrypted r.1 r.2.view then none
    else some r

section Decode

variable (A : Aead)

/-- `decode_command_payload_shared`: the decoded command, if it is accepted, and
the receive state behind it. -/
def decodeCommandPayloadShared (st : DataReadState) (rawCmd : UInt8) (data : Bytes) :
    Option (UInt8 × Bytes) × DataReadState :=
  if Command.fromByte (rawCmd &&& 0x7F) = Command.crypted then
    match st.decodeCipher with
    | none => (none, st)
    | some cipher =>
      let (decrypted, slider) := decryptCommand A cipher data st.slider
      let st := { st with slider := slider }
      match decrypted with
      | none => (none, st)
      | some (cmd, payload, _) => (gateShared true cmd payload, st)
  else (gateShared false rawCmd data, st)

/-- `decode_command_payload_owned`; the outer `none` is a panic. -/
def decodeCommandPayloadOwned (st : DataReadState) (rawCmd : UInt8) (payload : Payload) :
    Option (Option (UInt8 × Payload) × DataReadState) :=
  if Command.fromByte (rawCmd &&& 0x7F) = Command.crypted then
    match st.decodeCipher with
    | none => some (none, st)
    | some cipher =>
      (decryptCommandOwned A cipher payload st.slider).map fun r =>
        let st := { st with slider := r.2 }
        match r.1 with
        | none => (none, st)
        | some (cmd, payload, _) => (gateOwned true cmd payload, st)
  else some (gateOwned false rawCmd payload, st)

end Decode

/-! ## The two paths agree -/

/-- A decoded command with the bytes a consumer sees. -/
def seen (r : UInt8 × Payload) : UInt8 × Bytes := (r.1, r.2.view)

theorem gateOwned_eq (wasCrypted : Bool) (cmd : UInt8) (payload : Payload) :
    (gateOwned wasCrypted cmd payload).map seen = gateShared wasCrypted cmd payload.view := by
  unfold gateOwned gateShared
  by_cases hdrop : (!wasCrypted && dropPlaintextSensitive (cmd &&& 0x7F)) = true
  · rw [if_pos hdrop, if_pos hdrop]
    rfl
  · rw [if_neg hdrop, if_neg hdrop]
    by_cases hflag : cmd &&& compressedFlag ≠ 0
    · rw [if_pos hflag, if_pos hflag]
      cases mpDecompress payload.view with
      | none => rfl
      | some d =>
        show Option.map seen (if blocksApi wasCrypted (cmd &&& 0x7F) d then none
          else some (cmd &&& 0x7F, Payload.ofBytes d)) = if _ then none else some _
        cases blocksApi wasCrypted (cmd &&& 0x7F) d <;> rfl
    · rw [if_neg hflag, if_neg hflag]
      simp only [bind_some]
      cases blocksApi wasCrypted cmd payload.view <;> rfl

variable {A : Aead}

theorem decodeCommandPayloadOwned_eq (st : DataReadState) (rawCmd : UInt8) (payload : Payload) :
    ∃ r, decodeCommandPayloadOwned A st rawCmd payload = some r ∧
      (r.1.map seen, r.2) = decodeCommandPayloadShared A st rawCmd payload.view := by
  unfold decodeCommandPayloadOwned decodeCommandPayloadShared
  by_cases hcrypted : Command.fromByte (rawCmd &&& 0x7F) = Command.crypted
  · rw [if_pos hcrypted, if_pos hcrypted]
    cases st.decodeCipher with
    | none => exact ⟨_, rfl, rfl⟩
    | some cipher =>
      obtain ⟨⟨cmd, slider⟩, hr, hslider, hcmd⟩ :=
        decryptCommandOwned_eq (A := A) cipher payload st.slider
      simp only at hslider hcmd
      simp only [hr, map_some]
      refine ⟨_, rfl, ?_⟩
      rw [← hslider, ← hcmd]
      cases cmd with
      | none => rfl
      | some c =>
        simp only [map_some]
        rw [gateOwned_eq]
  · rw [if_neg hcrypted, if_neg hcrypted]
    exact ⟨_, rfl, by simp only [gateOwned_eq]⟩

/-- **The borrowed and the owned decode are one function.** For every receive
state, command byte and buffer (whatever of it is already consumed), the owned
decode never panics, and it accepts or rejects as the borrowed one does, with
the same command, the same visible bytes and the same receive state. -/
theorem decode_owned_eq_shared (st : DataReadState) (rawCmd : UInt8) (payload : Payload) :
    (decodeCommandPayloadOwned A st rawCmd payload).map (fun r => (r.1.map seen, r.2))
      = some (decodeCommandPayloadShared A st rawCmd payload.view) := by
  obtain ⟨r, hr, heq⟩ := decodeCommandPayloadOwned_eq (A := A) st rawCmd payload
  rw [hr, map_some, heq]

end MoonProto
