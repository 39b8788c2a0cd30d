import MoonProto.Lib.Keystream
import MoonProto.Crypto.Codec
import Mathlib.Data.Nat.Bitwise

/-!
# Datagrams on the wire

A command goes out behind a client header: a random byte, a 32-bit MAC, the transport
version, the command byte and the client id. The MAC is computed while its own four bytes
are zero and then written over them; everything behind the random byte is whitened with a
keystream that the random byte seeds; in mode 1 the result is hidden in a STUN message, of
which there is a short and a long layout, told apart by the STUN length field alone. A
received datagram goes the way back, with the shorter server header.

The MAC is a parameter: nothing here depends on which function of the bytes it is.
-/

namespace MoonProto.Transport

open Codec List

/-! ## Headers -/

/-- `TRANSPORT_VER`. -/
def transportVer : UInt8 := 3
/-- `SERVER_HDR_SIZE`. -/
def serverHdrSize : Nat := 7

structure ServerMsgHeader where
  rnd : UInt8
  checksum : UInt32
  ver : UInt8
  cmd : UInt8
  deriving DecidableEq, Repr

structure ClientMsgHeader where
  rnd : UInt8
  checksum : UInt32
  ver : UInt8
  cmd : UInt8
  clientId : UInt64
  deriving DecidableEq, Repr

/-- `ServerMsgHeader::from_bytes`. -/
def ServerMsgHeader.fromBytes (data : Bytes) : Option ServerMsgHeader :=
  if data.length < serverHdrSize then none
  else some
    { rnd := byteAt data 0
      checksum := readU32 (field data 1 4)
      ver := byteAt data 5
      cmd := byteAt data 6 }

/-- `ClientMsgHeader::new`; `rnd` is the byte drawn by `rand_byte`. -/
def ClientMsgHeader.new (rnd cmd : UInt8) (clientId : UInt64) : ClientMsgHeader :=
  { rnd, checksum := 0, ver := transportVer, cmd, clientId }

/-- `ClientMsgHeader::to_bytes`. -/
def ClientMsgHeader.toBytes (h : ClientMsgHeader) : Bytes :=
  [h.rnd] ++ u32Bytes h.checksum ++ [h.ver, h.cmd] ++ u64Bytes h.clientId

/-- `buf[1..5].copy_from_slice(..)`: the bytes of the checksum are overwritten. -/
def patchChecksum (buf csum : Bytes) : Bytes := buf.take 1 ++ csum ++ buf.drop 5

/-- `MacContext`: the keyed MAC and the whitening key derived from the MAC key. -/
structure MacContext where
  mac : Bytes → UInt32
  obfKey : MoonKey

/-! ## Outer whitening -/

/-- `next_keystream`: the word is read from the state before the state is advanced. -/
def nextKeystream (s : UInt64 × UInt64) : UInt64 × UInt64 × UInt64 :=
  let ks := s.1 + s.2
  let ks := ks ^^^ (ks >>> 11)
  let ks := ks ^^^ (ks >>> 23)
  let t := s.2 ^^^ s.1
  (ks, rotateLeft s.1 55 ^^^ t ^^^ (t <<< 14), rotateLeft t 36)
where
  /-- `u64::rotate_left` by less than 64. -/
  rotateLeft (x k : UInt64) : UInt64 := (x <<< k) ||| (x >>> (64 - k))

/-- The state of the keystream: the key and the plain seed byte. -/
def keystreamSeed (key : MoonKey) (seed : UInt8) : UInt64 × UInt64 :=
  (readU64 (field key.toList 0 8) ^^^ seed.toUInt64,
    readU64 (field key.toList 8 8) ^^^ (seed.toUInt64 * 0x9E3779B97F4A7C15))

/-- `outer_light_crypt`. -/
def outerLightCrypt (buf : Bytes) (key : MoonKey) : Bytes :=
  if buf.length ≤ 1 then buf
  else
    let seed := byteAt buf 0
    seed :: Keystream.whiten nextKeystream (keystreamSeed key seed) (buf.drop 1)

theorem outerLightCrypt_cons (seed : UInt8) (data : Bytes) (key : MoonKey) :
    outerLightCrypt (seed :: data) key =
      seed :: Keystream.whiten nextKeystream (keystreamSeed key seed) data := by
  unfold outerLightCrypt
  split
  · next h =>
    have hnil : data = [] := length_eq_zero_iff.mp (by simpa using h)
    subst hnil
    rfl
  · rfl

@[simp] theorem outerLightCrypt_length (buf : Bytes) (key : MoonKey) :
    (outerLightCrypt buf key).length = buf.length := by
  cases buf with
  | nil => rfl
  | cons seed data =>
    rw [outerLightCrypt_cons, length_cons, Keystream.whiten_length, length_cons]

/-- The seed byte stays in the clear, so that the second call starts from the same state. -/
theorem outerLightCrypt_outerLightCrypt (buf : Bytes) (key : MoonKey) :
    outerLightCrypt (outerLightCrypt buf key) key = buf := by
  cases buf with
  | nil => rfl
  | cons seed data => rw [outerLightCrypt_cons, outerLightCrypt_cons, Keystream.whiten_whiten]

/-! ## STUN -/

/-- `STUN_MAGIC`. -/
def stunMagic : Bytes := [0x21, 0x12, 0xA4, 0x42]

/-- A 16-bit number in two bytes, most significant first. -/
def be16 (n : Nat) : Bytes := [UInt8.ofNat (n >>> 8), UInt8.ofNat (n &&& 0xFF)]

/-- The way back, at two bytes of a buffer. -/
def readBe16 (data : Bytes) (off : Nat) : Nat :=
  ((byteAt data off).toNat <<< 8) ||| (byteAt data (off + 1)).toNat

/-- `wrap_in_stun`. -/
def wrapInStun (data : Bytes) (isServer : Bool) : Bytes :=
  let dataLen := data.length
  if dataLen = 0 then data
  else
    let typeBytes : Bytes := if isServer then [0x01, 0x01] else [0x00, 0x01]
    if dataLen ≤ 11 then
      typeBytes ++ [0, 0] ++ stunMagic ++ [UInt8.ofNat dataLen] ++ data ++
        List.replicate (11 - dataLen) 0
    else
      let attrLen := 4 + (dataLen - 12)
      let payloadLen := dataLen - 12
      typeBytes ++ be16 attrLen ++ stunMagic ++ data.take 12 ++ [0x00, 0x13] ++
        be16 payloadLen ++ data.drop 12

/-- `unwrap_from_stun`. -/
def unwrapFromStun (raw : Bytes) : Option Bytes :=
  if raw.length < 20 then none
  else if field raw 4 4 ≠ stunMagic then none
  else if ¬ (byteAt raw 1 = 0x01 ∧ (byteAt raw 0 = 0x00 ∨ byteAt raw 0 = 0x01)) then none
  else
    let len := readBe16 raw 2
    if len = 0 then
      let payloadLen := (byteAt raw 8).toNat
      if ¬ (1 ≤ payloadLen ∧ payloadLen ≤ 11) then none
      else some (field raw 9 payloadLen)
    else if raw.length < 24 then none
    else if byteAt raw 20 ≠ 0x00 ∨ byteAt raw 21 ≠ 0x13 then none
    else
      let attrLen := readBe16 raw 22
      if raw.length < 24 + attrLen then none
      else some (field raw 8 12 ++ field raw 24 attrLen)

theorem readBe16_be16 {n : Nat} (h : n < 65536) (post : Bytes) :
    readBe16 (be16 n ++ post) 0 = n := by
  have hhi : (UInt8.ofNat (n >>> 8)).toNat = n / 256 := by
    rw [UInt8.toNat_ofNat', Nat.shiftRight_eq_div_pow]
    omega
  have hlo : (UInt8.ofNat (n &&& 0xFF)).toNat = n % 256 := by
    rw [UInt8.toNat_ofNat', show (0xFF : Nat) = 2 ^ 8 - 1 from rfl, Nat.and_two_pow_sub_one_eq_mod]
    omega
  show ((UInt8.ofNat (n >>> 8)).toNat <<< 8) ||| (UInt8.ofNat (n &&& 0xFF)).toNat = n
  rw [hhi, hlo, ← Nat.shiftLeft_add_eq_or_of_lt (Nat.mod_lt _ (by decide)),
    Nat.shiftLeft_eq]
  omega

theorem readBe16_append (pre data : Bytes) (off : Nat) :
    readBe16 (pre ++ data) (pre.length + off) = readBe16 data off := by
  unfold readBe16
  rw [Nat.add_assoc, byteAt_append_right, byteAt_append_right]

/-- A STUN message of either layout: the type, the length field, the magic and the rest. -/
def stunMessage (isServer : Bool) (len : Nat) (body : Bytes) : Bytes :=
  (if isServer then [0x01, 0x01] else [0x00, 0x01]) ++ be16 len ++ stunMagic ++ body

variable (isServer : Bool) {data : Bytes} (rnd : UInt8)

theorem stunMessage_eq (len : Nat) (body : Bytes) :
    ∃ head : Bytes, head.length = 8 ∧ stunMessage isServer len body = head ++ body ∧
      field (head ++ body) 4 4 = stunMagic ∧ byteAt (head ++ body) 1 = 0x01 ∧
      (byteAt (head ++ body) 0 = 0x00 ∨ byteAt (head ++ body) 0 = 0x01) ∧
      (len < 65536 → readBe16 (head ++ body) 2 = len) := by
  refine ⟨(if isServer then [0x01, 0x01] else [0x00, 0x01]) ++ be16 len ++ stunMagic,
    ?_, rfl, ?_, ?_, ?_, ?_⟩
  · cases isServer <;> rfl
  · cases isServer <;> rfl
  · cases isServer <;> rfl
  · cases isServer
    · exact .inl rfl
    · exact .inr rfl
  · intro h
    have hread := readBe16_be16 h (stunMagic ++ body)
    cases isServer <;> exact hread

/-- What the checks in front of both layouts come down to. -/
theorem unwrapFromStun_stunMessage {len : Nat} (hlen : len < 65536)
    {body : Bytes} (hbody : 12 ≤ body.length) :
    unwrapFromStun (stunMessage isServer len body) = if len = 0 then
        if ¬ (1 ≤ (byteAt body 0).toNat ∧ (byteAt body 0).toNat ≤ 11) then none
        else some (field body 1 (byteAt body 0).toNat)
      else if body.length < 16 then none
      else if byteAt body 12 ≠ 0x00 ∨ byteAt body 13 ≠ 0x13 then none
      else if body.length < 16 + readBe16 body 14 then none
      else some (field body 0 12 ++ field body 16 (readBe16 body 14)) := by
  obtain ⟨head, hhead, heq, hmagic, hone, hkind, hread⟩ := stunMessage_eq isServer len body
  have hb (off : Nat) : byteAt (head ++ body) (8 + off) = byteAt body off := by
    rw [← hhead, byteAt_append_right]
  have hf (off n : Nat) : field (head ++ body) (8 + off) n = field body off n := by
    rw [← hhead, field_append_right]
  have hr : readBe16 (head ++ body) 22 = readBe16 body 14 := by
    rw [show 22 = head.length + 14 by rw [hhead], readBe16_append]
  have hlong : (head ++ body).length = 8 + body.length := by rw [length_append, hhead]
  rw [heq]
  unfold unwrapFromStun
  rw [if_neg (by rw [hlong]; omega), if_neg (not_not.mpr hmagic),
    if_neg (not_not.mpr ⟨hone, hkind⟩), hread hlen]
  by_cases h0 : len = 0
  · simp only [if_pos h0, hb 0, hf 1]
  · simp only [if_neg h0, hb 12, hb 13, hf 0, hf 16, hr, hlong]
    have h24 : 8 + body.length < 24 ↔ body.length < 16 := by omega
    have hall (n : Nat) : 8 + body.length < 24 + n ↔ body.length < 16 + n := by omega
    simp only [h24, hall]

/-- The short layout: a length field of zero, a byte with the length, zeros behind the
data. -/
theorem unwrapFromStun_short (hne : data ≠ []) (h : data.length ≤ 11) :
    unwrapFromStun (stunMessage isServer 0
      (UInt8.ofNat data.length :: (data ++ List.replicate (11 - data.length) 0)))
      = some data := by
  have hcount : (byteAt (UInt8.ofNat data.length ::
      (data ++ List.replicate (11 - data.length) 0)) 0).toNat = data.length := by
    show (UInt8.ofNat data.length).toNat = data.length
    rw [UInt8.toNat_ofNat']
    omega
  have hbody : 12 ≤ (UInt8.ofNat data.length ::
      (data ++ List.replicate (11 - data.length) 0)).length := by
    rw [length_cons, length_append, length_replicate]
    omega
  rw [unwrapFromStun_stunMessage isServer (by decide) hbody, if_pos rfl, hcount,
    if_neg (not_not.mpr ⟨length_pos_iff.mpr hne, h⟩)]
  exact congrArg some (field_append_left data _)

/-- The long layout: twelve bytes in place of the transaction id, the others in an
attribute. -/
theorem unwrapFromStun_long {first others : Bytes} (hfirst : first.length = 12)
    (h : others.length < 65532) :
    unwrapFromStun (stunMessage isServer (4 + others.length)
      (first ++ ([0x00, 0x13] ++ be16 others.length ++ others))) = some (first ++ others) := by
  have hb (off : Nat) (rest : Bytes) : byteAt (first ++ rest) (12 + off) = byteAt rest off := by
    rw [← hfirst, byteAt_append_right]
  have hattr : readBe16 (first ++ ([0x00, 0x13] ++ be16 others.length ++ others)) 14
      = others.length := by
    have hread := readBe16_append (first ++ [0x00, 0x13]) (be16 others.length ++ others) 0
    rw [length_append, hfirst] at hread
    rw [append_assoc, ← append_assoc first]
    exact hread.trans (readBe16_be16 (by omega) others)
  have hothers : field (first ++ ([0x00, 0x13] ++ be16 others.length ++ others)) 16 others.length
      = others := by
    have hpost := field_append_right (first ++ ([0x00, 0x13] ++ be16 others.length)) others 0
      others.length
    rw [length_append, hfirst] at hpost
    rw [← append_assoc]
    exact hpost.trans (take_length)
  have hlen : (first ++ ([0x00, 0x13] ++ be16 others.length ++ others)).length
      = 16 + others.length := by
    simp only [length_append, hfirst, be16, length_cons, length_nil]
    omega
  have htype : ¬ (byteAt (first ++ ([0x00, 0x13] ++ be16 others.length ++ others)) 12 ≠ 0x00 ∨
      byteAt (first ++ ([0x00, 0x13] ++ be16 others.length ++ others)) 13 ≠ 0x13) :=
    not_or.mpr ⟨not_not.mpr (hb 0 _), not_not.mpr (hb 1 _)⟩
  rw [unwrapFromStun_stunMessage isServer (by omega) (by omega), if_neg (by omega), hattr, hothers,
    hlen, if_neg (by omega), if_neg htype, if_neg (Nat.lt_irrefl _)]
  exact congrArg (fun f => some (f ++ others)) (hfirst ▸ field_append_left first _)

/-- **STUN unwrapping inverts wrapping** as long as the length field can hold the length of
the attribute. -/
theorem unwrapFromStun_wrapInStun (hne : data ≠ []) (h : data.length < 65544)
    (isServer : Bool) : unwrapFromStun (wrapInStun data isServer) = some data := by
  have hpos : 0 < data.length := length_pos_iff.mpr hne
  by_cases hshort : data.length ≤ 11
  · have hwrap : wrapInStun data isServer = stunMessage isServer 0
        (UInt8.ofNat data.length :: (data ++ List.replicate (11 - data.length) 0)) := by
      unfold wrapInStun stunMessage
      rw [if_neg (by omega), if_pos hshort]
      simp only [append_assoc]
      rfl
    rw [hwrap]
    exact unwrapFromStun_short isServer hne hshort
  · have hwrap : wrapInStun data isServer = stunMessage isServer (4 + (data.drop 12).length)
        (data.take 12 ++ ([0x00, 0x13] ++ be16 (data.drop 12).length ++ data.drop 12)) := by
      unfold wrapInStun stunMessage
      rw [if_neg (by omega), if_neg hshort, length_drop]
      simp only [append_assoc]
    have hrest : (data.drop 12).length < 65532 := by
      rw [length_drop]
      omega
    rw [hwrap, unwrapFromStun_long isServer (length_take_of_le (by omega)) hrest,
      take_append_drop]

/-! ## DNS warm-up -/

/-- `DNS_WARMUP_REQUEST`. -/
def dnsWarmupRequest : Bytes :=
  [0x4D, 0x50, 0x01, 0x00, 0x00, 0x01, 0x00, 0x00, 0x00, 0x00, 0x00, 0x00, 0x00, 0x00, 0x01,
    0x00, 0x01]

/-- `DNS_WARMUP_INTERVAL`. -/
def dnsWarmupInterval : UInt32 := 100

structure ClientTransportModeState where
  sentCountDns : UInt32 := 0
  deriving DecidableEq, Repr

/-- `next_dns_warmup_packet`. -/
def ClientTransportModeState.nextDnsWarmupPacket (st : ClientTransportModeState) :
    Option Bytes × ClientTransportModeState :=
  (if st.sentCountDns % dnsWarmupInterval = 0 then some dnsWarmupRequest else none,
    { st with sentCountDns := st.sentCountDns + 1 })

/-- `is_dns_warmup`. -/
def isDnsWarmup (data : Bytes) : Bool :=
  if data.length < 17 then false
  else if byteAt data 0 ≠ 0x4D ∨ byteAt data 1 ≠ 0x50 then false
  else if ¬ ((byteAt data 2 = 0x01 ∧ byteAt data 3 = 0x00) ∨
      (byteAt data 2 = 0x81 ∧ byteAt data 3 = 0x80)) then false
  else if byteAt data 4 ≠ 0x00 ∨ byteAt data 5 ≠ 0x01 then false
  else if byteAt data 12 ≠ 0x00 then false
  else true

/-! ## Packing and unpacking -/

/-- `normalize_mode`: an unsupported mode is mode 0. -/
def normalizeMode (maskVer : UInt8) : UInt8 := if maskVer = 1 ∨ maskVer = 2 then maskVer else 0

/-- `wrap_client_packet`: the buffer, the extra packet to send and the state behind it. -/
def wrapClientPacket (data : Bytes) (maskVer : UInt8) (st : ClientTransportModeState) :
    Bytes × Option Bytes × ClientTransportModeState :=
  if maskVer = 1 then (wrapInStun data false, none, st)
  else if maskVer = 2 then (data, st.nextDnsWarmupPacket)
  else (data, none, st)

/-- `unwrap_server_packet`. -/
def unwrapServerPacket (raw : Bytes) (maskVer : UInt8) : Option Bytes :=
  if maskVer = 1 then unwrapFromStun raw
  else if maskVer = 2 ∧ isDnsWarmup raw then none
  else some raw

/-- `pack_client_packet`. -/
def packClientPacket (ctx : MacContext) (rnd cmd : UInt8) (clientId : UInt64) (payload : Bytes)
    (maskVer : UInt8) (st : ClientTransportModeState) :
    Bytes × Option Bytes × ClientTransportModeState :=
  let buf := (ClientMsgHeader.new rnd cmd clientId).toBytes ++ payload
  let mac := ctx.mac buf
  let buf := patchChecksum buf (u32Bytes mac)
  wrapClientPacket (outerLightCrypt buf ctx.obfKey) (normalizeMode maskVer) st

/-- `transport_unpack_with_mac`: the checksum is zeroed for the MAC and written back. -/
def transportUnpackWithMac (ctx : MacContext) (raw : Bytes) (maskVer : UInt8) :
    Option (ServerMsgHeader × Bytes) :=
  match unwrapServerPacket raw (normalizeMode maskVer) with
  | none => none
  | some buf =>
    if buf.length < serverHdrSize then none
    else
      let buf := outerLightCrypt buf ctx.obfKey
      match ServerMsgHeader.fromBytes (buf.take serverHdrSize) with
      | none => none
      | some hdr =>
        let savedCsumBytes := field buf 1 4
        let buf := patchChecksum buf (u32Bytes 0)
        let computed := ctx.mac buf
        let buf := patchChecksum buf savedCsumBytes
        if computed ≠ hdr.checksum then none
        else if hdr.ver ≠ transportVer then none
        else some (hdr, buf.drop serverHdrSize)

/-- A packet in the clear: the server header, whatever checksum it has, and the rest. -/
def plainPacket (rnd : UInt8) (csum : UInt32) (cmd : UInt8) (body : Bytes) : Bytes :=
  rnd :: (u32Bytes csum ++ (transportVer :: cmd :: body))

theorem patchChecksum_plainPacket (csum mac : UInt32) (cmd : UInt8) (body : Bytes) :
    patchChecksum (plainPacket rnd csum cmd body) (u32Bytes mac) = plainPacket rnd mac cmd body :=
  rfl

theorem field_plainPacket (csum : UInt32) (cmd : UInt8) (body : Bytes) :
    field (plainPacket rnd csum cmd body) 1 4 = u32Bytes csum := rfl

theorem fromBytes_plainPacket (csum : UInt32) (cmd : UInt8) (body : Bytes) :
    ServerMsgHeader.fromBytes ((plainPacket rnd csum cmd body).take serverHdrSize)
      = some { rnd, checksum := csum, ver := transportVer, cmd } := by
  have hfield : field ((plainPacket rnd csum cmd body).take serverHdrSize) 1 4 = u32Bytes csum :=
    rfl
  have hlen : ¬ ((plainPacket rnd csum cmd body).take serverHdrSize).length < serverHdrSize :=
    Nat.lt_irrefl serverHdrSize
  unfold ServerMsgHeader.fromBytes
  rw [if_neg hlen, hfield, readU32_u32Bytes]
  rfl

theorem plainPacket_length (csum : UInt32) (cmd : UInt8) (body : Bytes) :
    (plainPacket rnd csum cmd body).length = serverHdrSize + body.length := by
  simp only [plainPacket, serverHdrSize, length_cons, length_append, u32Bytes_length]
  omega

/-- The packed buffer in front of the wrapping: a packet with the MAC of itself with a zero
checksum, whitened. -/
theorem packClientPacket_eq (ctx : MacContext) (rnd cmd : UInt8) (clientId : UInt64)
    (payload : Bytes) (maskVer : UInt8) (st : ClientTransportModeState) :
    packClientPacket ctx rnd cmd clientId payload maskVer st = wrapClientPacket (outerLightCrypt
          (plainPacket rnd (ctx.mac (plainPacket rnd 0 cmd (u64Bytes clientId ++ payload))) cmd
            (u64Bytes clientId ++ payload)) ctx.obfKey) (normalizeMode maskVer) st := by
  have hbuf : (ClientMsgHeader.new rnd cmd clientId).toBytes ++ payload
      = plainPacket rnd 0 cmd (u64Bytes clientId ++ payload) := by
    simp only [ClientMsgHeader.toBytes, ClientMsgHeader.new, plainPacket, append_assoc,
      cons_append, nil_append]
  unfold packClientPacket
  simp only [hbuf, patchChecksum_plainPacket]

/-- Outside the DNS mode what `wrap_client_packet` did to a packet is undone. -/
theorem unwrapServerPacket_wrapClientPacket (hne : data ≠ [])
    (h : data.length < 65544) {maskVer : UInt8} (hmode : maskVer ≠ 2)
    (st : ClientTransportModeState) :
    unwrapServerPacket (wrapClientPacket data maskVer st).1 maskVer = some data := by
  unfold unwrapServerPacket wrapClientPacket
  by_cases h1 : maskVer = 1
  · rw [if_pos h1, if_pos h1]
    exact unwrapFromStun_wrapInStun hne h false
  · rw [if_neg h1, if_neg h1, if_neg hmode, if_neg (fun hc => hmode hc.1)]

/-- A datagram that unwraps to a whitened packet with the right MAC is accepted. -/
theorem transportUnpackWithMac_eq (ctx : MacContext) (rnd cmd : UInt8) (body : Bytes)
    {raw : Bytes} {maskVer : UInt8}
    (h : unwrapServerPacket raw (normalizeMode maskVer) = some (outerLightCrypt
      (plainPacket rnd (ctx.mac (plainPacket rnd 0 cmd body)) cmd body) ctx.obfKey)) :
    transportUnpackWithMac ctx raw maskVer =
      some ({ rnd, checksum := ctx.mac (plainPacket rnd 0 cmd body), ver := transportVer, cmd },
        body) := by
  have hlen : ¬ (outerLightCrypt (plainPacket rnd (ctx.mac (plainPacket rnd 0 cmd body)) cmd body)
      ctx.obfKey).length < serverHdrSize := by
    rw [outerLightCrypt_length, plainPacket_length]
    omega
  unfold transportUnpackWithMac
  simp only [h, if_neg hlen, outerLightCrypt_outerLightCrypt, fromBytes_plainPacket,
    field_plainPacket, patchChecksum_plainPacket, ne_eq, not_true_eq_false, if_false]
  rfl

/-- **Pack and unpack.** For every MAC function and key, in mode 0 (which every unsupported
mode value stands for) and mode 1, the datagram packed from a command, a client id and a
payload unpacks to the command byte and to the client id in front of the payload. The
whitening undoes itself on every buffer, and STUN unwrapping undoes the wrapping of every
packet that is not empty. -/
theorem transport_round_trip :
    (∀ (ctx : MacContext) (rnd cmd : UInt8) (clientId : UInt64) (payload : Bytes)
        (maskVer : UInt8) (st : ClientTransportModeState),
      payload.length < 60000 → maskVer ≠ 2 →
      ∃ hdr, transportUnpackWithMac ctx
          (packClientPacket ctx rnd cmd clientId payload maskVer st).1 maskVer
            = some (hdr, u64Bytes clientId ++ payload) ∧ hdr.cmd = cmd) ∧
    (∀ (buf : Bytes) (key : MoonKey), outerLightCrypt (outerLightCrypt buf key) key = buf) ∧
    (∀ (data : Bytes) (isServer : Bool), data ≠ [] → data.length < 60000 + 15 →
      unwrapFromStun (wrapInStun data isServer) = some data) := by
  refine ⟨?_, outerLightCrypt_outerLightCrypt, ?_⟩
  · intro ctx rnd cmd clientId payload maskVer st hpayload hmode
    have hnorm : normalizeMode maskVer ≠ 2 := by
      unfold normalizeMode
      split
      · exact hmode
      · decide
    refine ⟨_, transportUnpackWithMac_eq ctx rnd cmd _ ?_, rfl⟩
    rw [packClientPacket_eq]
    have hlen : (outerLightCrypt (plainPacket rnd
        (ctx.mac (plainPacket rnd 0 cmd (u64Bytes clientId ++ payload))) cmd
          (u64Bytes clientId ++ payload)) ctx.obfKey).length = 15 + payload.length := by
      rw [outerLightCrypt_length, plainPacket_length, length_append, u64Bytes_length, serverHdrSize]
      omega
    refine unwrapServerPacket_wrapClientPacket ?_ (by omega) hnorm st
    intro hnil
    rw [hnil, length_nil] at hlen
    omega
  · intro data isServer hne hlen
    exact unwrapFromStun_wrapInStun hne (by omega) isServer

/-- A command with a two-byte payload, in mode 1, with the byte count as MAC. -/
theorem transport_round_trip_stun :
    ∃ hdr, transportUnpackWithMac ⟨fun data => UInt32.ofNat data.length, Vector.replicate 16 7⟩
        (packClientPacket ⟨fun data => UInt32.ofNat data.length, Vector.replicate 16 7⟩ 9 44 123
          [1, 2] 1 {}).1 1
        = some (hdr, [123, 0, 0, 0, 0, 0, 0, 0, 1, 2]) ∧ hdr.cmd = 44 ∧
      unwrapFromStun (wrapInStun [1, 2] true) = some [1, 2] := by
  obtain ⟨hdr, hunpack, hcmd⟩ :=
    transport_round_trip.1 ⟨fun data => UInt32.ofNat data.length, Vector.replicate 16 7⟩
      9 44 123 [1, 2] 1 {} (by decide) (by decide)
  exact ⟨hdr, hunpack, hcmd, transport_round_trip.2.2 [1, 2] true (by decide) (by decide)⟩

end MoonProto.Transport
