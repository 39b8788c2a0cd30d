import MoonProto.Client.Batching

/-!
# What is sent is what is decoded

Every route by which the client puts a command on the wire (a High item and its
retries, a Low item, a Sliced item, encrypted or plain) ends in a command byte
and bytes that `decode_command_payload_owned` takes back to the command and the
payload of the item. Two flag bits are in play, one on the command inside the
envelope and one on the envelope, and a retry starts from data that is already
compressed; the point is that compression is undone exactly once.
-/

namespace MoonProto

open Codec SynLZ List Option Bool

/-! ## Compression -/

/-- Either nothing happens, or the command is marked and the data compressed. -/
theorem maybeCompress_cases (cmd : UInt8) (data : Bytes) :
    maybeCompress cmd data = (cmd, data) ∨ ∃ compressed, mpCompress data = some compressed ∧
      maybeCompress cmd data = (cmd ||| compressedFlag, compressed) := by
  unfold maybeCompress
  split
  · split
    next compressed hc => exact .inr ⟨compressed, hc, rfl⟩
    · exact .inl rfl
  · exact .inl rfl

/-- Compressing again changes nothing: what is marked is left alone, and what did
not compress well does not do so the second time. -/
theorem maybeCompress_idem (cmd : UInt8) (data : Bytes) :
    maybeCompress (maybeCompress cmd data).1 (maybeCompress cmd data).2
      = maybeCompress cmd data := by
  obtain heq | ⟨compressed, -, heq⟩ := maybeCompress_cases cmd data
  · rw [heq, heq]
  · rw [heq]
    exact if_neg fun h => or_flag_and_flag cmd h.1

/-- What is marked decompresses. -/
theorem maybeCompress_spec (cmd : UInt8) {data : Bytes} (hlen : data.length ≤ maxDecompressedSize) :
    maybeCompress cmd data = (cmd, data) ∨ ((maybeCompress cmd data).1 = cmd ||| compressedFlag ∧
        mpDecompress (maybeCompress cmd data).2 = some data) := by
  obtain heq | ⟨compressed, hc, heq⟩ := maybeCompress_cases cmd data
  · exact .inl heq
  · rw [heq]
    exact .inr ⟨rfl, mpDecompress_mpCompress hlen hc⟩

/-- A plaintext command that the receiver's gates let through. -/
def plaintextAllowed (cmd : UInt8) (data : Bytes) : Bool :=
  Command.fromByte cmd != Command.crypted && !dropPlaintextSensitive cmd
    && !(cmd == Command.api.toByte && dropPlaintextApi data)

section Gate

variable {cmd : UInt8} {data : Bytes}

theorem maybeCompress_cmd (hcmd : cmd < 0x80) (data : Bytes) :
    (maybeCompress cmd data).1 &&& 0x7F = cmd := by
  obtain heq | ⟨compressed, -, heq⟩ := maybeCompress_cases cmd data
  · rw [heq]
    exact and_seven_f cmd hcmd
  · rw [heq]
    exact or_flag_and_seven_f cmd hcmd

theorem gateShared_maybeCompress (wasCrypted : Bool) (hcmd : cmd < 0x80)
    (hlen : data.length ≤ maxDecompressedSize)
    (hsensitive : (!wasCrypted && dropPlaintextSensitive cmd) = false)
    (hapi : blocksApi wasCrypted cmd data = false) :
    gateShared wasCrypted (maybeCompress cmd data).1 (maybeCompress cmd data).2
      = some (cmd, data) := by
  unfold gateShared
  rw [maybeCompress_cmd hcmd, hsensitive, if_neg Bool.false_ne_true]
  rcases maybeCompress_spec cmd hlen with heq | ⟨hmark, hback⟩
  · rw [heq]
    simp only
    rw [if_neg (not_not_intro (and_flag_eq_zero cmd hcmd)), bind_some, hapi,
      if_neg Bool.false_ne_true]
  · rw [hmark, hback, if_pos (or_flag_and_flag cmd), map_some, bind_some]
    simp only [hapi]
    rw [if_neg Bool.false_ne_true]

theorem blocksApi_crypted (cmd : UInt8) (data : Bytes) : blocksApi true cmd data = false := rfl

theorem blocksApi_allowed (hcmd : cmd < 0x80) (h : plaintextAllowed cmd data = true) :
    blocksApi false cmd data = false := by
  simp only [plaintextAllowed, and_eq_true, not_eq_true'] at h
  unfold blocksApi
  rw [and_seven_f cmd hcmd]
  simpa using h.2

end Gate

/-! ## What a peer makes of a message -/

/-- The peer decodes the message to this command and these bytes. -/
def Decodes (A : Aead) (peer : DataReadState) (msg : UInt8 × Bytes) (cmd : UInt8) (data : Bytes) :
    Prop :=
  ∃ payload peer', decodeCommandPayloadOwned A peer msg.1 (Payload.ofBytes msg.2)
    = some (some (cmd, payload), peer') ∧ payload.view = data

/-- The message is sealed under `key` with number `num`, and every peer that has
the key and takes the number as new decodes it to this command and these bytes. -/
structure OpensAs (A : Aead) (key : MoonKey) (msg : UInt8 × Bytes) (num : UInt64) (cmd : UInt8)
    (data : Bytes) : Prop where
  carries : ∃ hdr plaintext, decryptCommandNoReplay A key msg.2 = some (hdr, plaintext) ∧
    hdr.msgNum = num
  decodes : ∀ peer : DataReadState, peer.decodeCipher = some key →
    (peer.slider.judge num).1 = true → Decodes A peer msg cmd data

/-- Decoding on borrowed bytes is enough to know what the owned decoder does. -/
theorem Decodes.of_shared {A : Aead} {peer : DataReadState} {msg : UInt8 × Bytes} {cmd : UInt8}
    {data : Bytes}
    (h : (decodeCommandPayloadShared A peer msg.1 msg.2).1 = some (cmd, data)) :
    Decodes A peer msg cmd data := by
  obtain ⟨⟨decoded, peer'⟩, hr, heq⟩ := decodeCommandPayloadOwned_eq (A := A) peer msg.1
    (Payload.ofBytes msg.2)
  have h1 : decoded.map seen = some (cmd, data) := by
    rw [← h, ← Payload.view_ofBytes msg.2, ← heq]
  obtain ⟨⟨cmd', payload⟩, rfl, hseen⟩ := Option.map_eq_some_iff.mp h1
  cases hseen
  exact ⟨payload, peer', hr, rfl⟩

theorem fromByte_cryptedWireCmd : ∀ cmd : UInt8,
    Command.fromByte (cryptedWireCmd cmd &&& 0x7F) = Command.crypted :=
  byte_cases (by decide +kernel)

namespace Client

variable {env : Env} {c : Client} {key : MoonKey}

/-- **The envelope** opens to the header and the bytes that were sealed in it. -/
theorem sealCommand_opens (hA : env.aead.Inverts)
    (hkey : c.session.encodeCipher = some key) (cmd : UInt8) (data : Bytes) (msgNum : UInt64)
    (wantAck : Bool) :
    ∃ sealed hdr, c.sealCommand env cmd data msgNum wantAck = some (cryptedWireCmd cmd, sealed) ∧
      hdr.cmd = cmd ∧ hdr.msgNum = msgNum ∧
      decryptCommandNoReplay env.aead key sealed = some (hdr, hdr.toBytes ++ data) := by
  simp only [sealCommand, hkey, map_some]
  refine ⟨_, ⟨env.rnd c.trace.draws, msgNum, cmd, wantAck⟩, rfl, rfl, rfl, ?_⟩
  generalize CryptoHeader.mk (env.rnd c.trace.draws) msgNum cmd wantAck = hdr
  have hshort : ¬ (hdr.toBytes ++ data).length < 12 := by
    rw [length_append, CryptoHeader.toBytes_length]
    omega
  unfold decryptCommandNoReplay
  rw [decryptWithCipher_encryptWithCipher hA key (by simp), bind_some, if_neg hshort,
    CryptoHeader.fromBytes_toBytes, map_some]

theorem drop_header (hdr : CryptoHeader) (data : Bytes) : (hdr.toBytes ++ data).drop 12 = data := by
  rw [← CryptoHeader.toBytes_length hdr, drop_left]

theorem sealCommand_opensAs (hA : env.aead.Inverts)
    (hkey : c.session.encodeCipher = some key) {cmd : UInt8} (hcmd : cmd < 0x80) {data : Bytes}
    (hlen : data.length ≤ maxDecompressedSize) (msgNum : UInt64) (wantAck : Bool) :
    ∃ msg, c.sealCommand env (maybeCompress cmd data).1 (maybeCompress cmd data).2 msgNum wantAck
      = some msg ∧ OpensAs env.aead key msg msgNum cmd data := by
  obtain ⟨sealed, hdr, hseal, hinner, hnum, hopen⟩ := sealCommand_opens hA hkey
    (maybeCompress cmd data).1 (maybeCompress cmd data).2 msgNum wantAck
  refine ⟨_, hseal, ⟨_, _, hopen, hnum⟩, fun peer hpeer hnew => Decodes.of_shared ?_⟩
  unfold decodeCommandPayloadShared decryptCommand
  simp only [fromByte_cryptedWireCmd, if_true, hpeer, hopen, hnum, hnew, drop_header, hinner]
  exact gateShared_maybeCompress true hcmd hlen rfl (blocksApi_crypted cmd data)

theorem plain_decodes (A : Aead) (peer : DataReadState) {cmd : UInt8} (hcmd : cmd < 0x80)
    {data : Bytes} (hlen : data.length ≤ maxDecompressedSize)
    (hallowed : plaintextAllowed cmd data = true) :
    Decodes A peer (maybeCompress cmd data) cmd data := by
  have hgates := hallowed
  simp only [plaintextAllowed, and_eq_true, not_eq_true', bne_iff_ne, ne_eq] at hgates
  apply Decodes.of_shared
  unfold decodeCommandPayloadShared
  rw [maybeCompress_cmd hcmd, if_neg hgates.1.1]
  exact gateShared_maybeCompress false hcmd hlen hgates.1.2 (blocksApi_allowed hcmd hallowed)

/-! ## Routes -/

/-- The ways a queued item leaves the client. -/
inductive Route
  | high
  | low
  | sliced
deriving DecidableEq

/-- Send an item by a route. -/
def sendBy (env : Env) (c : Client) (item : SendItem) (curTm : Int) : Route → Client
  | .high => c.sendHItem env item curTm
  | .low => c.batchSendDirect env item
  | .sliced => c.createSlicedAndSend env item

/-- A sliced message has to fit its 256 blocks; the direct routes take any. -/
def admits (c : Client) (item : SendItem) : Route → Bool
  | .sliced => c.admitsSliced (maybeCompress item.cmd item.data).2
  | _ => true

/-- The message number an encrypted item goes out with. -/
def numberOf (c : Client) (item : SendItem) : Route → UInt64
  | .low => c.out.cryptMsgCounter + 1
  | _ => if item.msgNum ≠ 0 then item.msgNum else c.out.cryptMsgCounter + 1

/-- From `c` to `c'` exactly this message was put on its way: handed to the batch,
or cut into the blocks of a datagram in flight. -/
inductive Puts (env : Env) (c c' : Client) (msg : WireMessage) : Prop
  | direct (h : Hands env c c' [msg])
  | sliced (s : SentSliced (Option Nat)) (h : c'.out.sending = s.insertByBlocks c.out.sending)
      (hblocks : (s.slices.map (List.drop sliceHeaderSize)).flatten = msg.1 :: msg.2)

theorem msgNumFor_num (c : Client) (item : SendItem) : (c.msgNumFor item).1
      = if item.msgNum ≠ 0 then item.msgNum else c.out.cryptMsgCounter + 1 := by
  unfold msgNumFor nextMsgNum
  split <;> rfl

theorem handovers_msgNumFor (c : Client) (item : SendItem) :
    (c.msgNumFor item).2.handovers = c.handovers := by
  unfold msgNumFor nextMsgNum
  split <;> rfl

theorem sending_msgNumFor (c : Client) (item : SendItem) :
    (c.msgNumFor item).2.out.sending = c.out.sending := by
  unfold msgNumFor nextMsgNum
  split <;> rfl

theorem pendingH_msgNumFor (c : Client) (item : SendItem) :
    (c.msgNumFor item).2.out.pendingH = c.out.pendingH := by
  unfold msgNumFor nextMsgNum
  split <;> rfl

/-- The cipher stays while a number is drawn, and seals the command. -/
theorem sealCommand_msgNumFor (env : Env) (hkey : c.session.encodeCipher = some key)
    (item : SendItem) : (c.msgNumFor item).2.session.encodeCipher = some key ∧
      ∃ msg, (c.msgNumFor item).2.sealCommand env (maybeCompress item.cmd item.data).1
        (maybeCompress item.cmd item.data).2 (c.msgNumFor item).1
        (decide (0 < item.retryLeft)) = some msg := by
  have hkey1 : (c.msgNumFor item).2.session.encodeCipher = some key := by
    rw [(msgNumFor_sends c item).session, hkey]
  refine ⟨hkey1, ?_⟩
  simp only [sealCommand, hkey1, map_some]
  exact ⟨_, rfl⟩

theorem slicePmtu_pos {data : Bytes} (h : c.admitsSliced data = true) :
    0 < (slicePmtu c.session.actualPmtu).toNat := by
  simp only [admitsSliced, and_eq_true, decide_eq_true_eq] at h
  omega

theorem putInFlight_puts {c c₁ : Client} (hsending : c₁.out.sending = c.out.sending) {pmtu : Nat}
    (hpmtu : 0 < pmtu) (msg : UInt8 × Bytes) (item : SendItem) (by' : Option Nat) :
    Puts env c (c₁.putInFlight pmtu msg.1 msg.2 item by') msg :=
  .sliced _ (by rw [← hsending]; rfl)
    (SentSliced.create_payload hpmtu msg.2 item.maxRetries item.uKey by')

/-- With a cipher installed `send_h_item` hands over exactly one message: the
sealed command, or the plain one. -/
theorem sendHItem_hands (env : Env) (hkey : c.session.encodeCipher = some key)
    (item : SendItem) (curTm : Int) :
    ∃ msg, Hands env c (c.sendHItem env item curTm) [msg] ∧ (item.encrypted = true →
        (c.msgNumFor item).2.sealCommand env (maybeCompress item.cmd item.data).1
          (maybeCompress item.cmd item.data).2 (c.msgNumFor item).1
          (decide (0 < item.retryLeft)) = some msg) := by
  cases henc : item.encrypted with
  | false =>
    simp only [sendHItem, henc, false_eq_true, if_false]
    exact ⟨_, .call _ _, fun h => h.elim⟩
  | true =>
    obtain ⟨-, msg, hseal⟩ := sealCommand_msgNumFor env hkey item
    have hdrew : (c.msgNumFor item).2.drew.wire = c.wire := by
      unfold msgNumFor nextMsgNum
      split <;> rfl
    have hsend := (@Hands.quiet env _ _ hdrew).trans
      (.call msg [(c.msgNumFor item).2.trace.ciphers])
    refine ⟨msg, ?_, fun _ => hseal⟩
    simp only [sendHItem, henc, if_true, hseal]
    split
    · exact hsend.trans (.quiet rfl)
    · exact hsend

variable {item : SendItem}

/-- **An encrypted item**, whose data may be the original or the copy kept of it:
by every route the message opens to the command and data it stands for. -/
theorem sendBy_encrypted (hA : env.aead.Inverts)
    (hkey : c.session.encodeCipher = some key) (henc : item.encrypted = true) {cmd : UInt8}
    {data : Bytes} (hitem : maybeCompress item.cmd item.data = maybeCompress cmd data)
    (hcmd : cmd < 0x80) (hlen : data.length ≤ maxDecompressedSize) (curTm : Int) (route : Route)
    (hadm : c.admits item route = true) :
    ∃ msg, Puts env c (c.sendBy env item curTm route) msg ∧
      OpensAs env.aead key msg (c.numberOf item route) cmd data := by
  have hkey1 := (sealCommand_msgNumFor env hkey item).1
  cases route with
  | high =>
    obtain ⟨msg, hseal, hopens⟩ := sealCommand_opensAs hA hkey1 hcmd hlen (c.msgNumFor item).1
      (decide (0 < item.retryLeft))
    obtain ⟨msg', hhands, hseal'⟩ := sendHItem_hands env hkey item curTm
    have hmsg := hseal' henc
    rw [hitem, hseal, some_inj] at hmsg
    rw [msgNumFor_num] at hopens
    exact ⟨msg, .direct (hmsg ▸ hhands), hopens⟩
  | low =>
    obtain ⟨msg, hseal, hopens⟩ := sealCommand_opensAs (c := c.nextMsgNum.2) hA hkey hcmd hlen
      c.nextMsgNum.1 (decide (0 < item.retryLeft))
    refine ⟨msg, .direct ?_, hopens⟩
    simp only [sendBy, batchSendDirect, henc, if_true, hitem, hseal]
    exact (Hands.quiet (by rfl)).trans (.call msg _)
  | sliced =>
    obtain ⟨msg, hseal, hopens⟩ := sealCommand_opensAs hA hkey1 hcmd hlen (c.msgNumFor item).1
      (decide (0 < item.retryLeft))
    rw [msgNumFor_num] at hopens
    have hpmtu := slicePmtu_pos hadm
    simp only [admits, hitem] at hadm
    refine ⟨msg, ?_, hopens⟩
    simp only [sendBy, createSlicedAndSend, henc, if_true, hitem, hseal, hadm, Bool.not_true,
      false_eq_true, if_false]
    exact @putInFlight_puts env c (c.msgNumFor item).2.drew (sending_msgNumFor c item) _ hpmtu msg
      item _

/-- **A plain item** that the gates allow. -/
theorem sendBy_plain (henc : item.encrypted = false)
    (hcmd : item.cmd < 0x80) (hlen : item.data.length ≤ maxDecompressedSize)
    (hallowed : plaintextAllowed item.cmd item.data = true) (curTm : Int) (route : Route)
    (hadm : c.admits item route = true) :
    ∃ msg, Puts env c (c.sendBy env item curTm route) msg ∧
      ∀ peer, Decodes env.aead peer msg item.cmd item.data := by
  refine ⟨maybeCompress item.cmd item.data, ?_,
    fun peer => plain_decodes env.aead peer hcmd hlen hallowed⟩
  cases route with
  | high =>
    simp only [sendBy, sendHItem, henc, false_eq_true, if_false]
    exact .direct (.call _ _)
  | low =>
    simp only [sendBy, batchSendDirect, henc, false_eq_true, if_false]
    exact .direct (.call _ _)
  | sliced =>
    have hpmtu := slicePmtu_pos hadm
    simp only [admits] at hadm
    simp only [sendBy, createSlicedAndSend, henc, hadm, Bool.not_true, false_eq_true, if_false]
    exact putInFlight_puts rfl hpmtu _ item none

/-! ## Retries -/

/-- `kept` is the copy kept of an encrypted command that was sent under `num`. -/
structure Keeps (kept : SendItem) (cmd : UInt8) (data : Bytes) (num : UInt64) : Prop where
  encrypted : kept.encrypted = true
  msgNum : kept.msgNum = num
  stored : (kept.cmd, kept.data) = maybeCompress cmd data

theorem pendingH_flushSendBatch (c : Client) :
    (c.flushSendBatch env).out.pendingH = c.out.pendingH := by
  unfold flushSendBatch
  split
  · rfl
  simp only
  show (Client.out (if _ then _ else _)).pendingH = _
  split
  · exact congrArg Outbound.pendingH (sendRawPacketCmd_out env c _ _ _)
  split
  · exact congrArg Outbound.pendingH (sendRawPacketCmd_out env c _ _ _)
  · rfl

theorem pendingH_doSendMpDataWire (c : Client) (cmd : UInt8) (data : Bytes) (by' : List Nat) :
    (c.doSendMpDataWire env cmd data by').out.pendingH = c.out.pendingH := by
  unfold doSendMpDataWire
  simp only
  split
  · split
    · exact pendingH_flushSendBatch _
    · exact congrArg Outbound.pendingH (sendRawPacketCmd_out env _ _ _ _)
  · rfl

/-- The first send keeps a copy under the number it went out with. -/
theorem sendHItem_keeps (hkey : c.session.encodeCipher = some key) (henc : item.encrypted = true)
    (hfirst : item.msgNum = 0) (hretry : 0 < item.retryLeft) (curTm : Int) :
    ∃ kept, (c.sendHItem env item curTm).out.pendingH = c.out.pendingH ++ [kept] ∧
      Keeps kept item.cmd item.data (c.numberOf item .high) := by
  have hkey1 := (sealCommand_msgNumFor env hkey item).1
  refine ⟨pendingCopy item (maybeCompress item.cmd item.data).1 (maybeCompress item.cmd item.data).2
    (c.msgNumFor item).1 curTm, ?_, ⟨henc, msgNumFor_num c item, rfl⟩⟩
  simp only [sendHItem, henc, if_true, sealCommand, hkey1, map_some,
    if_pos (And.intro hretry hfirst)]
  rw [pendingH_doSendMpDataWire, ← pendingH_msgNumFor c item]
  rfl

/-- The pending items that are due. -/
def dueForResend (c : Client) (curTm : Int) : List SendItem :=
  c.out.pendingH.filter fun kept =>
    retryDue kept.lastSentAt curTm (pendingHPathDelay c.session.roundTripDelay)

theorem filterMap_resendOf (curTm pathDelay : Int) : ∀ items : List SendItem,
    items.filterMap (resendOf curTm pathDelay)
      = (items.filter fun kept => retryDue kept.lastSentAt curTm pathDelay).map
          fun kept => { kept with lastSentAt := curTm }
  | [] => rfl
  | item :: items => by
    have ih := filterMap_resendOf curTm pathDelay items
    cases hdue : retryDue item.lastSentAt curTm pathDelay with
    | false => simp [resendOf, hdue, ih]
    | true => simp [resendOf, hdue, ih]

/-- The copy that stays pending behind a retry stands for the same command. -/
theorem keptOf_keeps {curTm pathDelay : Int} {kept kept' : SendItem} {cmd : UInt8} {data : Bytes}
    {num : UInt64} (h : keptOf curTm pathDelay kept = some kept') (hk : Keeps kept cmd data num) :
    Keeps kept' cmd data num := by
  unfold keptOf at h
  split at h
  · split at h
    · cases h
    · cases h
      exact ⟨hk.encrypted, hk.msgNum, hk.stored⟩
  · cases h
    exact hk

/-- A resend hands over one message, and if it is of a kept copy the message opens
to the command the copy stands for, under the same number. -/
theorem resend_opensAs (hA : env.aead.Inverts)
    (hkey : c.session.encodeCipher = some key) (kept : SendItem) (curTm : Int) :
    ∃ msg, Hands env c (c.sendHItem env { kept with lastSentAt := curTm } curTm) [msg] ∧
      ∀ cmd data num, Keeps kept cmd data num → num ≠ 0 → cmd < 0x80 →
        data.length ≤ maxDecompressedSize → OpensAs env.aead key msg num cmd data := by
  obtain ⟨msg, hhands, hseal⟩ := sendHItem_hands env hkey
    { kept with lastSentAt := curTm } curTm
  refine ⟨msg, hhands, fun cmd data num hk hnum hcmd hlen => ?_⟩
  have hitem : maybeCompress kept.cmd kept.data = maybeCompress cmd data := by
    have hidem := maybeCompress_idem cmd data
    rw [← hk.stored] at hidem
    exact hidem.trans hk.stored
  obtain ⟨msg', hseal', hopens⟩ := sealCommand_opensAs hA
    (c := (c.msgNumFor { kept with lastSentAt := curTm }).2)
    (by rw [(msgNumFor_sends c _).session, hkey]) hcmd hlen
    (c.msgNumFor { kept with lastSentAt := curTm }).1 (decide (0 < kept.retryLeft))
  have hmsg := hseal hk.encrypted
  rw [hitem, hseal', some_inj] at hmsg
  rw [msgNumFor_num, if_pos (by rw [hk.msgNum]; exact hnum), hk.msgNum] at hopens
  exact hmsg ▸ hopens

theorem resendAll_opensAs (hA : env.aead.Inverts) (curTm : Int) :
    ∀ (due : List SendItem) {c : Client}, c.session.encodeCipher = some key →
    ∃ msgs, Hands env c (due.foldl
        (fun c kept => c.sendHItem env { kept with lastSentAt := curTm } curTm) c) msgs ∧
      Forall₂ (fun kept msg => ∀ cmd data num, Keeps kept cmd data num → num ≠ 0 →
        cmd < 0x80 → data.length ≤ maxDecompressedSize → OpensAs env.aead key msg num cmd data)
        due msgs
  | [], c, _ => ⟨[], .quiet rfl, .nil⟩
  | kept :: due, c, hkey => by
    obtain ⟨msg, hhands, hopens⟩ := resend_opensAs hA hkey kept curTm
    obtain ⟨msgs, hmsgs, hall⟩ := resendAll_opensAs hA curTm due
      (c := c.sendHItem env { kept with lastSentAt := curTm } curTm)
      (by rw [(sendHItem_sends env c _ curTm).session]; exact hkey)
    exact ⟨msg :: msgs, hhands.trans hmsgs, .cons hopens hall⟩

/-- **Retries**: every due item goes out again as one message. -/
theorem retryPendingH_opensAs (hA : env.aead.Inverts)
    (hkey : c.session.encodeCipher = some key) (curTm : Int) :
    ∃ msgs, Hands env c (c.retryPendingH env curTm) msgs ∧
      Forall₂ (fun kept msg => ∀ cmd data num, Keeps kept cmd data num → num ≠ 0 →
        cmd < 0x80 → data.length ≤ maxDecompressedSize → OpensAs env.aead key msg num cmd data)
        (c.dueForResend curTm) msgs := by
  unfold retryPendingH dueForResend
  simp only [filterMap_resendOf, foldl_map]
  exact (resendAll_opensAs hA curTm _ (by exact hkey)).imp fun msgs h =>
    ⟨(Hands.quiet (by rfl)).trans h.1, h.2⟩

/-- **Send-path round trip.** Take a command byte below `0x80` and a payload
within the decompression limit, and an AEAD whose opening inverts its sealing.

* Encrypted, the item leaves by every route that admits it as one message that
  carries its number and that every peer with the key, to which the number is
  new, decodes to exactly the command and the payload.
* Plain, where the receiver's gates allow the command, the message is decoded to
  the command and the payload in every state of the peer.
* The first send of a High item with retries left keeps a copy for the command
  under the number it went out with, and the copy that a retry leaves behind
  still stands for it.
* Whenever `retry_pending_h` finds such a copy due, in whatever state and under
  whatever cipher, the message it sends carries the same number and opens to the
  same command and payload. Numbers start at 2048; only a wrap of the 64-bit
  counter could give 0, which the source reads as "not sent yet". -/
theorem send_paths_decode (env : Env) (hA : env.aead.Inverts) (c : Client) (item : SendItem)
    (curTm : Int) (hcmd : item.cmd < 0x80) (hlen : item.data.length ≤ maxDecompressedSize) :
    (∀ route key, c.admits item route = true → item.encrypted = true →
      c.session.encodeCipher = some key →
      ∃ msg, Puts env c (c.sendBy env item curTm route) msg ∧
        OpensAs env.aead key msg (c.numberOf item route) item.cmd item.data) ∧
    (∀ route, c.admits item route = true → item.encrypted = false →
      plaintextAllowed item.cmd item.data = true →
      ∃ msg, Puts env c (c.sendBy env item curTm route) msg ∧
        ∀ peer, Decodes env.aead peer msg item.cmd item.data) ∧
    (∀ key, item.encrypted = true → item.msgNum = 0 → 0 < item.retryLeft →
      c.session.encodeCipher = some key →
      ∃ kept, (c.sendHItem env item curTm).out.pendingH = c.out.pendingH ++ [kept] ∧
        Keeps kept item.cmd item.data (c.numberOf item .high)) ∧
    (∀ pathDelay kept kept' num, keptOf curTm pathDelay kept = some kept' →
      Keeps kept item.cmd item.data num → Keeps kept' item.cmd item.data num) ∧
    (∀ key (later : Client), later.session.encodeCipher = some key →
      ∃ msgs, Hands env later (later.retryPendingH env curTm) msgs ∧
        Forall₂ (fun kept msg => ∀ num, Keeps kept item.cmd item.data num → num ≠ 0 →
          OpensAs env.aead key msg num item.cmd item.data) (later.dueForResend curTm) msgs) := by
  refine ⟨fun route key hadm henc hkey => ?_, fun route hadm henc hallowed => ?_,
    fun key henc hfirst hretry hkey => ?_, fun pathDelay kept kept' num h hk => ?_,
    fun key later hkey => ?_⟩
  · exact sendBy_encrypted hA hkey henc rfl hcmd hlen curTm route hadm
  · exact sendBy_plain henc hcmd hlen hallowed curTm route hadm
  · exact sendHItem_keeps hkey henc hfirst hretry curTm
  · exact keptOf_keeps h hk
  · obtain ⟨msgs, hmsgs, hall⟩ := retryPendingH_opensAs hA hkey curTm
    refine ⟨msgs, hmsgs, hall.imp fun kept msg hopens num hk hnum => ?_⟩
    exact hopens item.cmd item.data num hk hnum hcmd hlen

/-- A client of the sample environment with a cipher. -/
def sampleWithCipher : Client :=
  let c := Client.new .sample 1 2
  { c with session := { c.session with encodeCipher := some (Vector.replicate 16 3) } }

/-- A small encrypted request. -/
def sampleItem : SendItem where
  data := [1, 2, 3]
  cmd := Command.api.toByte
  encrypted := true
  priority := .high
  retryLeft := 2
  maxRetries := 3
  msgNum := 0
  lastSentAt := 0
  uKey := UniqueKey.none

theorem send_paths_decode_sample :
    ∃ msg,
      Puts .sample sampleWithCipher (sampleWithCipher.sendBy .sample sampleItem 0 .sliced) msg ∧
      OpensAs Aead.tagged (Vector.replicate 16 3) msg 2048 Command.api.toByte [1, 2, 3] :=
  (send_paths_decode .sample Aead.tagged_inverts sampleWithCipher sampleItem 0 (by decide)
    (by decide)).1 .sliced (Vector.replicate 16 3) (by decide) rfl rfl

end Client

end MoonProto
