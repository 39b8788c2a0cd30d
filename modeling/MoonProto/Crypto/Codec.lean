import MoonProto.Lib.Bytes

/-!
# The AES-GCM envelope

`src/crypto/aes_gcm_codec.rs`: plaintext is padded to whole blocks and sealed,
and the wire form is IV, tag, ciphertext. The cipher itself is a parameter; an
`Aead` carries what its Rust type says (it works in place, so lengths are kept,
and a tag has 16 bytes). That opening inverts sealing is a separate assumption.
A cipher object is identified with its key, from which it is built.
-/

namespace MoonProto

/-- A 16-byte key. -/
abbrev MoonKey := Vector UInt8 16

structure Aead where
  sealDetached (key : MoonKey) (nonce aad plain : Bytes) : Bytes × Bytes
  openDetached (key : MoonKey) (nonce aad cipher tag : Bytes) : Option Bytes
  cipher_length : ∀ k n a p, (sealDetached k n a p).1.length = p.length
  tag_length : ∀ k n a p, (sealDetached k n a p).2.length = 16
  plain_length : ∀ k n a c t p, openDetached k n a c t = some p → p.length = c.length

/-- Opening what was sealed under the same key, nonce and data gives it back. -/
structure Aead.Inverts (A : Aead) : Prop where
  open_seal : ∀ k n a p,
    A.openDetached k n a (A.sealDetached k n a p).1 (A.sealDetached k n a p).2 = some p

/-- A cipher for closed examples: it does not hide the text, but its tag is the
key, so that only the key it was sealed under opens a message. -/
def Aead.tagged : Aead where
  sealDetached key _ _ plain := (plain, key.toList)
  openDetached key _ _ cipher tag := if tag = key.toList then some cipher else none
  cipher_length _ _ _ _ := rfl
  tag_length _ _ _ _ := by simp
  plain_length _ _ _ _ _ _ h := by
    split at h
    · cases h
      rfl
    · cases h

theorem Aead.tagged_inverts : Aead.tagged.Inverts where
  open_seal _ _ _ _ := if_pos rfl

/-! ## Padding -/

def pkcs7PaddingLen (len : Nat) : Nat :=
  let padding := 16 - (len &&& 15)
  if padding = 0 then 16 else padding

def checkPkcs7Padding (buf : Bytes) : Option Nat :=
  buf.getLast?.bind fun last =>
    let padding := last.toNat
    if padding = 0 ∨ 16 < padding ∨ buf.length < padding then none
    else if (buf.drop (buf.length - padding)).all fun b => b.toNat == padding then some padding
    else none

theorem pkcs7PaddingLen_eq (len : Nat) : pkcs7PaddingLen len = 16 - len % 16 := by
  have h : len &&& 15 = len % 16 := Nat.and_two_pow_sub_one_eq_mod len 4
  unfold pkcs7PaddingLen
  rw [h]
  simp only
  rw [if_neg (by omega)]

theorem pkcs7PaddingLen_bounds (len : Nat) :
    0 < pkcs7PaddingLen len ∧ pkcs7PaddingLen len ≤ 16 := by
  rw [pkcs7PaddingLen_eq]
  omega

/-- A plaintext with its padding behind it. -/
def pad (plain : Bytes) : Bytes :=
  plain ++ List.replicate (pkcs7PaddingLen plain.length)
    (UInt8.ofNat (pkcs7PaddingLen plain.length))

theorem pad_length (plain : Bytes) :
    (pad plain).length = plain.length + pkcs7PaddingLen plain.length := by
  simp [pad]

theorem checkPkcs7Padding_pad (plain : Bytes) :
    checkPkcs7Padding (pad plain) = some (pkcs7PaddingLen plain.length) := by
  obtain ⟨hpos, hle⟩ := pkcs7PaddingLen_bounds plain.length
  have hlen := pad_length plain
  have hbyte : (UInt8.ofNat (pkcs7PaddingLen plain.length)).toNat
      = pkcs7PaddingLen plain.length := by
    rw [UInt8.toNat_ofNat']
    omega
  have hlast : (pad plain).getLast? = some (UInt8.ofNat (pkcs7PaddingLen plain.length)) := by
    rw [pad, List.getLast?_append, List.getLast?_replicate, if_neg (by omega)]
    rfl
  have hdrop : (pad plain).drop ((pad plain).length - pkcs7PaddingLen plain.length)
      = List.replicate (pkcs7PaddingLen plain.length)
          (UInt8.ofNat (pkcs7PaddingLen plain.length)) := by
    rw [hlen, Nat.add_sub_cancel, pad, List.drop_left]
  unfold checkPkcs7Padding
  simp only [hlast, Option.bind_some, hbyte]
  rw [if_neg (by omega), hdrop]
  simp [hbyte]

theorem checkPkcs7Padding_le {buf : Bytes} {padding : Nat}
    (h : checkPkcs7Padding buf = some padding) : padding ≤ buf.length := by
  unfold checkPkcs7Padding at h
  obtain ⟨last, -, hlast⟩ := Option.bind_eq_some_iff.mp h
  simp only at hlast
  split at hlast
  · cases hlast
  split at hlast
  · cases hlast
    omega
  · cases hlast

/-! ## Envelope -/

section Envelope

variable (A : Aead)

/-- `encrypt_with_cipher`; the IV, which the source draws from a counter, a mask
and the clock, is an argument. -/
def encryptWithCipher (cipher : MoonKey) (iv plaintext aad : Bytes) : Bytes :=
  let sealed := A.sealDetached cipher iv aad (pad plaintext)
  iv ++ (sealed.2 ++ sealed.1)

def decryptWithCipher (cipher : MoonKey) (data aad : Bytes) : Option Bytes :=
  if data.length < 28 then none
  else
    let iv := data.take 12
    let tag := (data.drop 12).take 16
    let ciphertext := data.drop 28
    if ciphertext.isEmpty then none
    else
      (A.openDetached cipher iv aad ciphertext tag).bind fun buf =>
      (checkPkcs7Padding buf).map fun padding => buf.take (buf.length - padding)

/-- `decrypt_in_place`: the buffer with the ciphertext replaced by the padded
plaintext, and the range of the plaintext in it. -/
def decryptInPlace (cipher : MoonKey) (data aad : Bytes) : Option (Bytes × Nat × Nat) :=
  if data.length ≤ 28 then none
  else
    let header := data.take 28
    (A.openDetached cipher (header.take 12) aad (data.drop 28) (header.drop 12)).bind fun plain =>
    (checkPkcs7Padding plain).map fun padding =>
      (header ++ plain, 28, 28 + plain.length - padding)

variable {A}

theorem encryptWithCipher_length (cipher : MoonKey) {iv : Bytes} (hiv : iv.length = 12)
    (plaintext aad : Bytes) :
    (encryptWithCipher A cipher iv plaintext aad).length
      = 28 + plaintext.length + pkcs7PaddingLen plaintext.length := by
  simp only [encryptWithCipher, List.length_append, hiv, A.tag_length, A.cipher_length, pad_length]
  omega

/-- **Decryption inverts encryption.** -/
theorem decryptWithCipher_encryptWithCipher (hA : A.Inverts) (cipher : MoonKey) {iv : Bytes}
    (hiv : iv.length = 12) (plaintext aad : Bytes) :
    decryptWithCipher A cipher (encryptWithCipher A cipher iv plaintext aad) aad
      = some plaintext := by
  have hlen := encryptWithCipher_length (A := A) cipher hiv plaintext aad
  obtain ⟨hpos, -⟩ := pkcs7PaddingLen_bounds plaintext.length
  have htag := A.tag_length cipher iv aad (pad plaintext)
  have hct := A.cipher_length cipher iv aad (pad plaintext)
  have hopen := hA.open_seal cipher iv aad (pad plaintext)
  unfold decryptWithCipher
  rw [if_neg (by omega)]
  unfold encryptWithCipher
  generalize A.sealDetached cipher iv aad (pad plaintext) = sealed at *
  have h1 : (iv ++ (sealed.2 ++ sealed.1)).take 12 = iv := by rw [← hiv, List.take_left]
  have h2 : (iv ++ (sealed.2 ++ sealed.1)).drop 12 = sealed.2 ++ sealed.1 := by
    rw [← hiv, List.drop_left]
  have h3 : (sealed.2 ++ sealed.1).take 16 = sealed.2 := by rw [← htag, List.take_left]
  have h4 : (iv ++ (sealed.2 ++ sealed.1)).drop 28 = sealed.1 := by
    rw [show 28 = 12 + 16 from rfl, ← List.drop_drop, h2, ← htag, List.drop_left]
  have hne : sealed.1.isEmpty = false := by
    rw [List.isEmpty_eq_false_iff, ← List.length_pos_iff, hct, pad_length]
    omega
  simp only [h1, h2, h3, h4, hne, hopen, Option.bind_some, checkPkcs7Padding_pad, Option.map_some,
    pad_length, Nat.add_sub_cancel]
  rw [if_neg Bool.false_ne_true, pad, List.take_left]

/-- **The two decryptions agree**: the in-place one accepts the same data and
leaves the same plaintext in its range. -/
theorem decryptInPlace_eq (cipher : MoonKey) (data aad : Bytes) :
    (decryptInPlace A cipher data aad = none ∧ decryptWithCipher A cipher data aad = none) ∨
    ∃ data' stop plain, decryptInPlace A cipher data aad = some (data', 28, stop) ∧
      decryptWithCipher A cipher data aad = some plain ∧ data'.length = data.length ∧
      28 ≤ stop ∧ stop ≤ data.length ∧ (data'.take stop).drop 28 = plain := by
  unfold decryptInPlace decryptWithCipher
  by_cases hlen : data.length ≤ 28
  · left
    refine ⟨if_pos hlen, ?_⟩
    by_cases hlt : data.length < 28
    · exact if_pos hlt
    · have hnil : data.drop 28 = [] := List.drop_eq_nil_iff.mpr hlen
      simp [hlt, hnil]
  · have hne : (data.drop 28).isEmpty = false := by
      rw [List.isEmpty_eq_false_iff, ne_eq, List.drop_eq_nil_iff]
      exact hlen
    have hiv : (data.take 28).take 12 = data.take 12 := by
      rw [List.take_take]
      rfl
    have htag : (data.take 28).drop 12 = (data.drop 12).take 16 := by
      rw [List.drop_take]
    simp only [if_neg hlen, if_neg (show ¬ data.length < 28 by omega), hne, hiv, htag,
      Bool.false_eq_true, if_false]
    cases hopen : A.openDetached cipher (data.take 12) aad (data.drop 28)
        ((data.drop 12).take 16) with
    | none => exact .inl ⟨rfl, rfl⟩
    | some buf =>
      have hbuf := A.plain_length _ _ _ _ _ _ hopen
      rw [List.length_drop] at hbuf
      simp only [Option.bind_some]
      cases hpad : checkPkcs7Padding buf with
      | none => exact .inl ⟨rfl, rfl⟩
      | some padding =>
        have hle := checkPkcs7Padding_le hpad
        have hhead : (data.take 28).length = 28 := by
          rw [List.length_take]
          omega
        refine .inr ⟨_, _, _, rfl, rfl, ?_, by omega, by omega, ?_⟩
        · rw [List.length_append, hhead]
          omega
        · generalize data.take 28 = header at hhead
          rw [List.drop_take, ← hhead, List.drop_left, hhead]
          show buf.take (28 + buf.length - padding - 28) = buf.take (buf.length - padding)
          congr 1
          omega

end Envelope

end MoonProto
