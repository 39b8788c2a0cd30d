import MoonProto.Crypto.Codec
import MoonProto.Protocol.Slider

/-!
# Encrypted commands

The receive buffer of `src/protocol/payload.rs`, whose consumed headers stay in
front of the visible part, and the `MPC_Crypted` envelope of
`src/protocol/crypted.rs` in its two forms: copying, and in place.
-/

namespace MoonProto

open Codec List Option

/-! ## Receive buffers -/

/-- An owned buffer and where its visible part starts. -/
structure Payload where
  bytes : Bytes
  start : Nat
  start_le : start ≤ bytes.length

namespace Payload

def ofBytes (bytes : Bytes) : Payload := ⟨bytes, 0, Nat.zero_le _⟩

/-- The visible bytes (`Deref`). -/
def view (p : Payload) : Bytes := p.bytes.drop p.start

theorem view_length (p : Payload) : p.view.length = p.bytes.length - p.start := by
  rw [view, length_drop]

/-- `restrict`; `none` is the failed assertion. -/
def restrict (p : Payload) (first last : Nat) : Option Payload :=
  if h : first ≤ last ∧ last ≤ p.view.length then
    some ⟨p.bytes.take (p.start + last), p.start + first, by
      have h1 := p.start_le
      have h2 := p.view_length
      rw [length_take]
      omega⟩
  else none

/-- The buffer after the visible bytes were overwritten in place (`DerefMut`). -/
def overwrite (p : Payload) (data : Bytes) : Payload :=
  ⟨p.bytes.take p.start ++ data, p.start, by
    have h := p.start_le
    rw [length_append, length_take]
    omega⟩

@[simp] theorem view_ofBytes (bytes : Bytes) : (ofBytes bytes).view = bytes := rfl

theorem restrict_spec (p : Payload) {first last : Nat} (h1 : first ≤ last)
    (h2 : last ≤ p.view.length) :
    ∃ p', p.restrict first last = some p' ∧ p'.view = (p.view.take last).drop first := by
  unfold restrict
  rw [dif_pos ⟨h1, h2⟩]
  refine ⟨_, rfl, ?_⟩
  simp only [view]
  rw [← drop_drop, drop_take, Nat.add_sub_cancel_left]

theorem view_overwrite (p : Payload) (data : Bytes) : (p.overwrite data).view = data := by
  have h := p.start_le
  have hlen : (p.bytes.take p.start).length = p.start := by
    rw [length_take]
    omega
  simp only [view, overwrite]
  rw [drop_append_of_le_length (Nat.le_of_eq hlen.symm), drop_of_length_le
    (Nat.le_of_eq hlen), nil_append]

end Payload

/-! ## The crypto header -/

structure CryptoHeader where
  rnd : UInt16
  msgNum : UInt64
  cmd : UInt8
  wantAck : Bool
deriving DecidableEq

namespace CryptoHeader

def fromBytes (data : Bytes) : Option CryptoHeader :=
  if data.length < 12 then none
  else some {
    rnd := readU16 (field data 0 2)
    msgNum := readU64 (field data 2 8)
    cmd := byteAt data 10
    wantAck := byteAt data 11 != 0 }

/-- The header as the senders write it. -/
def toBytes (h : CryptoHeader) : Bytes :=
  u16Bytes h.rnd ++ (u64Bytes h.msgNum ++ [h.cmd, if h.wantAck then 1 else 0])

@[simp] theorem toBytes_length (h : CryptoHeader) : h.toBytes.length = 12 := by
  simp [toBytes]

theorem fromBytes_toBytes (h : CryptoHeader) (rest : Bytes) :
    fromBytes (h.toBytes ++ rest) = some h := by
  have hrnd := field_append_left (u16Bytes h.rnd)
    (u64Bytes h.msgNum ++ ([h.cmd, if h.wantAck then 1 else 0] ++ rest))
  have hnum := field_append_right (u16Bytes h.rnd)
    (u64Bytes h.msgNum ++ ([h.cmd, if h.wantAck then 1 else 0] ++ rest)) 0 8
  have hnum' := field_append_left (u64Bytes h.msgNum)
    ([h.cmd, if h.wantAck then 1 else 0] ++ rest)
  have hcmd := byteAt_append_right (u16Bytes h.rnd ++ u64Bytes h.msgNum)
    ([h.cmd, if h.wantAck then 1 else 0] ++ rest) 0
  have hack := byteAt_append_right (u16Bytes h.rnd ++ u64Bytes h.msgNum)
    ([h.cmd, if h.wantAck then 1 else 0] ++ rest) 1
  simp only [u16Bytes_length, u64Bytes_length, length_append, append_assoc]
    at hrnd hnum hnum' hcmd hack
  have hne : ¬ (h.toBytes ++ rest).length < 12 := by
    rw [length_append, toBytes_length]
    omega
  unfold fromBytes
  rw [if_neg hne]
  unfold toBytes
  simp only [append_assoc]
  rw [hrnd, hnum, hnum', hcmd, hack, readU16_u16Bytes, readU64_u64Bytes]
  cases h with
  | mk rnd msgNum cmd wantAck => cases wantAck <;> rfl

end CryptoHeader

/-! ## Decryption with replay protection -/

section Decrypt

variable (A : Aead)

/-- `decrypt_command_no_replay`: header and whole plaintext. -/
def decryptCommandNoReplay (cipher : MoonKey) (data : Bytes) : Option (CryptoHeader × Bytes) :=
  (decryptWithCipher A cipher data []).bind fun plaintext =>
    if plaintext.length < 12 then none
    else (CryptoHeader.fromBytes plaintext).map fun hdr => (hdr, plaintext)

/-- `decrypt_command`: command, payload and ACK wish, and the slider behind it. -/
def decryptCommand (cipher : MoonKey) (data : Bytes) (slider : Slider) :
    Option (UInt8 × Bytes × Bool) × Slider :=
  match decryptCommandNoReplay A cipher data with
  | none => (none, slider)
  | some (hdr, plaintext) =>
    let (isNew, slider) := slider.judge hdr.msgNum
    if isNew then (some (hdr.cmd, plaintext.drop 12, hdr.wantAck), slider)
    else (none, slider)

/-- `decrypt_command_owned`; the outer `none` is a failed assertion of
`restrict`. -/
def decryptCommandOwned (cipher : MoonKey) (payload : Payload) (slider : Slider) :
    Option (Option (UInt8 × Payload × Bool) × Slider) :=
  match decryptInPlace A cipher payload.view [] with
  | none => some (none, slider)
  | some (data, first, last) =>
    ((payload.overwrite data).restrict first last).bind fun payload =>
    if payload.view.length < 12 then some (none, slider)
    else
      match CryptoHeader.fromBytes payload.view with
      | none => some (none, slider)
      | some hdr =>
        let (isNew, slider) := slider.judge hdr.msgNum
        if isNew then
          (payload.restrict 12 payload.view.length).map fun payload =>
            (some (hdr.cmd, payload, hdr.wantAck), slider)
        else some (none, slider)

variable {A}

/-- **In place or copying**: the same command, bytes and slider. -/
theorem decryptCommandOwned_eq (cipher : MoonKey) (payload : Payload) (slider : Slider) :
    ∃ r, decryptCommandOwned A cipher payload slider = some r ∧
      r.2 = (decryptCommand A cipher payload.view slider).2 ∧
      r.1.map (fun q => (q.1, q.2.1.view, q.2.2))
        = (decryptCommand A cipher payload.view slider).1 := by
  unfold decryptCommandOwned decryptCommand decryptCommandNoReplay
  rcases decryptInPlace_eq (A := A) cipher payload.view [] with
    ⟨hin, hcopy⟩ | ⟨data, stop, plain, hin, hcopy, hlen, hle, hstop, hview⟩
  · rw [hin, hcopy]
    exact ⟨_, rfl, rfl, rfl⟩
  · rw [hin, hcopy]
    obtain ⟨p1, hp1, hv1⟩ := (payload.overwrite data).restrict_spec hle
      (by rw [Payload.view_overwrite, hlen]; exact hstop)
    rw [Payload.view_overwrite, hview] at hv1
    simp only [hp1, bind_some, hv1]
    by_cases hshort : plain.length < 12
    · simp only [if_pos hshort]
      exact ⟨_, rfl, rfl, rfl⟩
    · simp only [if_neg hshort]
      cases hhdr : CryptoHeader.fromBytes plain with
      | none => exact ⟨_, rfl, rfl, rfl⟩
      | some hdr =>
        simp only [map_some]
        cases hnew : (slider.judge hdr.msgNum).1 with
        | false => exact ⟨_, rfl, rfl, rfl⟩
        | true =>
          obtain ⟨p2, hp2, hv2⟩ := @Payload.restrict_spec p1 12 p1.view.length
            (by rw [hv1]; omega) (Nat.le_refl _)
          rw [take_length, hv1] at hv2
          rw [hv1] at hp2
          simp only [if_true, hp2, map_some]
          refine ⟨_, rfl, rfl, ?_⟩
          rw [map_some, hv2]

end Decrypt

end MoonProto
