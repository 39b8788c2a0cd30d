import MoonProto.Client.SessionSafety

/-!
# Grouped batching

Messages that are handed to `do_send_mp_data_wire` wait in a buffer and leave as one
Grouped packet, or alone. The counter of the buffer counts a transport header for
every message, and a message that does not fit either pushes the buffer out or goes
out directly while the buffer stays. The invariant `Batch` says what the buffer is:
the encoding of a list of messages, within the path MTU.

The inverse is the receiver's: `packetCommands` are the commands that
`dispatch_packet_commands` takes out of a packet.
-/

namespace MoonProto

open Codec List

/-- A command and its bytes. -/
abbrev WireMessage := UInt8 × Bytes

/-! ## The receiver's splitter -/

/-- The receiver takes the packet apart if it says so. -/
def isGrouped (cmd : UInt8) : Prop := Command.fromByte (cmd &&& 0x7F) = Command.grouped

instance (cmd : UInt8) : Decidable (isGrouped cmd) := inferInstanceAs (Decidable (_ = _))

/-- The commands in a packet, as the receiver dispatches them. -/
def packetCommands (packet : WireMessage) : List WireMessage :=
  if ¬ isGrouped packet.1 then [packet]
  else if packet.1 &&& compressedFlag ≠ 0 then []
  else groupedCommands packet.2.length packet.2

/-- A message in the buffer: command, length, bytes. -/
def groupItem (msg : WireMessage) : Bytes :=
  msg.1 :: (u16Bytes (UInt16.ofNat msg.2.length) ++ msg.2)

theorem groupItem_length (msg : WireMessage) : (groupItem msg).length = msg.2.length + 3 := by
  simp only [groupItem, length_cons, length_append, u16Bytes_length]
  omega

theorem toNat_ofNat_length {data : Bytes} (h : data.length < 65536) :
    (UInt16.ofNat data.length).toNat = data.length := by
  rw [UInt16.toNat_ofNat']
  exact Nat.mod_eq_of_lt h

/-- The splitter takes one message off the front. -/
theorem groupedCommands_groupItem {msg : WireMessage} (hsize : msg.2.length < 65536) (rest : Bytes)
    (n : Nat) :
    groupedCommands (n + 1) (groupItem msg ++ rest) = msg :: groupedCommands n rest := by
  have hhead : field (groupItem msg ++ rest) 1 2 = u16Bytes (UInt16.ofNat msg.2.length) := by
    show ((u16Bytes (UInt16.ofNat msg.2.length) ++ msg.2) ++ rest).take 2 = _
    rw [append_assoc]
    exact take_left' (u16Bytes_length _)
  have hbody : (groupItem msg ++ rest).drop 3 = msg.2 ++ rest := by
    show ((u16Bytes (UInt16.ofNat msg.2.length) ++ msg.2) ++ rest).drop 2 = _
    rw [append_assoc]
    exact drop_left' (u16Bytes_length _)
  have hlen : (groupItem msg ++ rest).length = 3 + msg.2.length + rest.length := by
    rw [length_append, groupItem_length]
    omega
  rw [groupedCommands]
  simp only [hhead, readU16_u16Bytes, toNat_ofNat_length hsize, hlen]
  rw [if_neg (by omega), ← drop_drop, hbody, take_left, drop_left]
  rfl

/-- **The splitter inverts the buffer.** -/
theorem groupedCommands_flatMap : ∀ (msgs : List WireMessage) {n : Nat}, msgs.length ≤ n →
    (∀ msg ∈ msgs, msg.2.length < 65536) → groupedCommands n (msgs.flatMap groupItem) = msgs
  | [], 0, _, _ => rfl
  | [], n + 1, _, _ => rfl
  | msg :: msgs, n + 1, hn, hsize => by
    rw [flatMap_cons, groupedCommands_groupItem (hsize msg mem_cons_self)]
    rw [groupedCommands_flatMap msgs (Nat.le_of_succ_le_succ hn) fun m hm =>
      hsize m (mem_cons_of_mem msg hm)]

theorem length_le_flatMap : ∀ msgs : List WireMessage,
    msgs.length ≤ (msgs.flatMap groupItem).length ∧
      ∀ msg ∈ msgs, msg.2.length ≤ (msgs.flatMap groupItem).length
  | [] => ⟨Nat.le_refl _, nofun⟩
  | msg :: msgs => by
    obtain ⟨hcount, hmem⟩ := length_le_flatMap msgs
    rw [flatMap_cons, length_append, groupItem_length, length_cons]
    refine ⟨by omega, fun m hm => ?_⟩
    rcases mem_cons.mp hm with rfl | hm
    · omega
    · exact Nat.le_trans (hmem m hm) (Nat.le_add_left _ _)

/-! ## Packets on the wire -/

namespace Client

/-- The packets that went to the socket, in order. -/
def packets (c : Client) : List WireMessage :=
  c.trace.log.filterMap fun
    | .sent _ cmd payload _ _ => some (cmd, payload)
    | _ => none

/-- There is a socket, and the address of the server is known or the next lookup
finds it. -/
structure Reaches (env : Env) (c : Client) : Prop where
  socket : c.socket.isSome = true
  address : (c.cachedServerAddr || env.resolves c.trace.lookups) = true

theorem packets_record (c : Client) (e : Effect) :
    (c.record e).packets = c.packets ++ [e].filterMap fun
      | .sent _ cmd payload _ _ => some (cmd, payload)
      | _ => none := filterMap_append

theorem sendRawPacketCmd_packets {env : Env} {c : Client} (h : c.Reaches env) (cmd : UInt8)
    (payload : Bytes) (by' : List Nat) :
    (c.sendRawPacketCmd env cmd payload by').packets = c.packets ++ [(cmd, payload)] ∧
      (c.sendRawPacketCmd env cmd payload by').Reaches env := by
  obtain ⟨hsocket, haddr⟩ := h
  obtain ⟨socket, hsome⟩ := Option.isSome_iff_exists.mp hsocket
  unfold sendRawPacketCmd serverSocketAddr
  cases hcached : c.cachedServerAddr with
  | true =>
    simp only [hsome, if_true, Bool.not_true, Bool.false_eq_true, if_false]
    refine ⟨packets_record c _, hsocket, ?_⟩
    show (c.cachedServerAddr || _) = true
    rw [hcached, Bool.true_or]
  | false =>
    rw [hcached, Bool.false_or] at haddr
    simp only [haddr, hsome, Bool.not_true, Bool.false_eq_true, if_false]
    exact ⟨packets_record _ _, rfl, rfl⟩

/-! ## The buffer -/

/-- The buffer holds the messages, and its counter is within the path MTU. -/
structure Batch (c : Client) (msgs : List WireMessage) : Prop where
  buf : c.out.tmpSendBuf = msgs.flatMap groupItem
  count : c.out.tmpSendCount = msgs.length
  size : c.out.tmpSendSize = (msgs.map fun msg => accountedSize msg.2).sum
  fits : c.out.tmpSendSize ≤ c.session.actualPmtu.toNat

variable {env : Env} {c : Client} {msgs : List WireMessage}

theorem sum_accountedSize : ∀ msgs : List WireMessage, (msgs.map fun msg => accountedSize msg.2).sum
      = (msgs.flatMap groupItem).length + 15 * msgs.length
  | [] => rfl
  | msg :: msgs => by
    rw [map_cons, sum_cons, sum_accountedSize msgs, flatMap_cons,
      length_append, groupItem_length, length_cons]
    unfold accountedSize
    omega

theorem Batch.length_le (h : c.Batch msgs) (hne : msgs ≠ []) :
    (msgs.flatMap groupItem).length + 15 ≤ c.session.actualPmtu.toNat := by
  have hsize := h.size
  have hfits := h.fits
  have hpos : 0 < msgs.length := length_pos_iff.mpr hne
  rw [sum_accountedSize] at hsize
  omega

theorem Batch.length_lt (h : c.Batch msgs) : ∀ msg ∈ msgs, msg.2.length < 65536 := by
  intro msg hmsg
  have hle := (length_le_flatMap msgs).2 msg hmsg
  have hbuf := h.length_le (ne_nil_of_mem hmsg)
  have hpmtu : c.session.actualPmtu.toNat < 65536 := c.session.actualPmtu.toNat_lt
  omega

/-- What a packet owes to the receiver: what it decodes to, and for a Grouped packet
its size and its lengths. -/
structure Delivers (pmtu : Nat) (packet : WireMessage) (msgs : List WireMessage) : Prop where
  commands : packetCommands packet = msgs
  grouped : isGrouped packet.1 → packet.2.length + 15 ≤ pmtu ∧ packet.2 = msgs.flatMap groupItem ∧
    ∀ msg ∈ msgs, (UInt16.ofNat msg.2.length).toNat = msg.2.length

variable {msg : WireMessage}

theorem delivers_single (pmtu : Nat) (h : ¬ isGrouped msg.1) : Delivers pmtu msg [msg] :=
  ⟨if_pos h, fun hgrouped => absurd hgrouped h⟩

theorem Batch.delivers_group (h : c.Batch msgs) (hne : msgs ≠ []) :
    Delivers c.session.actualPmtu.toNat (Command.grouped.toByte, msgs.flatMap groupItem) msgs := by
  constructor
  · have hsplit : packetCommands (Command.grouped.toByte, msgs.flatMap groupItem)
        = groupedCommands (msgs.flatMap groupItem).length (msgs.flatMap groupItem) := by
      unfold packetCommands
      rw [if_neg (not_not_intro (show isGrouped Command.grouped.toByte by decide))]
      exact if_neg (show ¬ Command.grouped.toByte &&& compressedFlag ≠ 0 by decide)
    rw [hsplit]
    exact groupedCommands_flatMap msgs (length_le_flatMap msgs).1 h.length_lt
  · intro _
    exact ⟨h.length_le hne, rfl, fun msg hmsg => toNat_ofNat_length (h.length_lt msg hmsg)⟩

/-- What a call or a flush puts on the wire: packets that deliver the messages in
`out`. -/
def Emits (c c' : Client) (out : List WireMessage) : Prop :=
  ∃ sent : List (WireMessage × List WireMessage), c'.packets = c.packets ++ sent.map Prod.fst ∧
    out = sent.flatMap Prod.snd ∧
    ∀ p ∈ sent, Delivers c.session.actualPmtu.toNat p.1 p.2

theorem Emits.nothing {c c' : Client} (h : c'.packets = c.packets) : Emits c c' [] :=
  ⟨[], h.trans (append_nil _).symm, rfl, nofun⟩

theorem Emits.quiet {c₁ c₂ c₃ : Client} {out : List WireMessage} (h : Emits c₁ c₂ out)
    (hq : c₃.packets = c₂.packets) : Emits c₁ c₃ out := by
  obtain ⟨sent, hpackets, hout, hdelivers⟩ := h
  exact ⟨sent, hq.trans hpackets, hout, hdelivers⟩

theorem Emits.trans {c₁ c₂ c₃ : Client} {out out' : List WireMessage} (h : Emits c₁ c₂ out)
    (hs : c₂.session = c₁.session) (h' : Emits c₂ c₃ out') : Emits c₁ c₃ (out ++ out') := by
  obtain ⟨sent, hpackets, rfl, hdelivers⟩ := h
  obtain ⟨sent', hpackets', rfl, hdelivers'⟩ := h'
  refine ⟨sent ++ sent', ?_, flatMap_append.symm, fun p hp => ?_⟩
  · rw [hpackets', hpackets, map_append, append_assoc]
  · rcases mem_append.mp hp with hp | hp
    · exact hdelivers p hp
    · exact hs ▸ hdelivers' p hp

/-- The client with an empty buffer. -/
def emptied (c : Client) : Client :=
  { c with out := { c.out with
    tmpSendBuf := [], tmpSendCount := 0, tmpSendSize := 0, tmpSealedBy := [] } }

theorem emptied_batch (c : Client) : c.emptied.Batch [] := ⟨rfl, rfl, rfl, Nat.zero_le _⟩

theorem Reaches.emptied (h : c.Reaches env) : c.emptied.Reaches env := ⟨h.socket, h.address⟩

theorem Batch.flush_one (h : c.Batch [msg]) : c.flushSendBatch env
      = (c.sendRawPacketCmd env msg.1 msg.2 c.out.tmpSealedBy).emptied := by
  have hsize : 3 ≤ c.out.tmpSendBuf.length := by
    rw [h.buf, flatMap_singleton, groupItem_length]
    exact Nat.le_add_left 3 _
  have hcmd : byteAt c.out.tmpSendBuf 0 = msg.1 := by
    rw [h.buf, flatMap_singleton]
    rfl
  have hdata : c.out.tmpSendBuf.drop 3 = msg.2 := by
    rw [h.buf, flatMap_singleton]
    exact drop_left' (u16Bytes_length _)
  have hone : c.out.tmpSendCount = 1 := h.count
  unfold flushSendBatch
  rw [if_neg (by omega)]
  simp only [if_neg (show ¬ 1 < c.out.tmpSendCount by omega), if_pos hsize, hcmd, hdata]
  rfl

theorem Batch.flush_many {msg₁ msg₂ : WireMessage} (h : c.Batch (msg₁ :: msg₂ :: msgs)) :
    c.flushSendBatch env = (c.sendRawPacketCmd env Command.grouped.toByte
          ((msg₁ :: msg₂ :: msgs).flatMap groupItem) c.out.tmpSealedBy).emptied := by
  have hmany : c.out.tmpSendCount = msgs.length + 2 := h.count
  unfold flushSendBatch
  rw [if_neg (by omega)]
  simp only [if_pos (show 1 < c.out.tmpSendCount by omega), h.buf]
  rfl

/-- **A flush** puts everything that is buffered on the wire. -/
theorem Batch.flush (h : c.Batch msgs) (hreach : c.Reaches env)
    (hcmds : ∀ msg ∈ msgs, ¬ isGrouped msg.1) :
    Emits c (c.flushSendBatch env) msgs ∧ (c.flushSendBatch env).Batch [] ∧
      (c.flushSendBatch env).Reaches env := by
  match msgs, h, hcmds with
  | [], h, _ =>
    rw [show c.flushSendBatch env = c from if_pos h.count]
    exact ⟨.nothing rfl, h, hreach⟩
  | [msg], h, hcmds =>
    obtain ⟨hpackets, hreach'⟩ := sendRawPacketCmd_packets hreach msg.1 msg.2 c.out.tmpSealedBy
    rw [h.flush_one]
    refine ⟨⟨[(msg, [msg])], hpackets, rfl, fun p hp => ?_⟩, emptied_batch _, hreach'.emptied⟩
    rw [mem_singleton.mp hp]
    exact delivers_single _ (hcmds msg (mem_singleton.mpr rfl))
  | msg₁ :: msg₂ :: msgs, h, _ =>
    obtain ⟨hpackets, hreach'⟩ := sendRawPacketCmd_packets hreach Command.grouped.toByte
      ((msg₁ :: msg₂ :: msgs).flatMap groupItem) c.out.tmpSealedBy
    rw [h.flush_many]
    refine ⟨⟨[(_, msg₁ :: msg₂ :: msgs)], hpackets, (append_nil _).symm, fun p hp => ?_⟩,
      emptied_batch _, hreach'.emptied⟩
    rw [mem_singleton.mp hp]
    exact h.delivers_group (cons_ne_nil _ _)

theorem Batch.push (h : c.Batch msgs) (by' : List Nat)
    (hfits : c.out.tmpSendSize + accountedSize msg.2 ≤ c.session.actualPmtu.toNat) :
    (c.pushTmpSendItem msg.1 msg.2 (accountedSize msg.2) by').Batch (msgs ++ [msg]) := by
  refine ⟨?_, ?_, ?_, hfits⟩
  · show c.out.tmpSendBuf ++ groupItem msg = _
    rw [h.buf, flatMap_append, flatMap_singleton]
  · show c.out.tmpSendCount + 1 = _
    rw [h.count, length_append, length_singleton]
  · show c.out.tmpSendSize + accountedSize msg.2 = _
    rw [h.size, map_append, sum_append, map_singleton, sum_singleton]

/-- **A call**: what was buffered and the new message are on the wire or buffered. -/
theorem Batch.call (h : c.Batch msgs) (hreach : c.Reaches env)
    (hcmds : ∀ msg ∈ msgs, ¬ isGrouped msg.1) (hmsg : ¬ isGrouped msg.1)
    (by' : List Nat) :
    ∃ out msgs', Emits c (c.doSendMpDataWire env msg.1 msg.2 by') out ∧
      (c.doSendMpDataWire env msg.1 msg.2 by').Batch msgs' ∧
      (c.doSendMpDataWire env msg.1 msg.2 by').Reaches env ∧
      (out ++ msgs').Perm (msgs ++ [msg]) := by
  -- the note in the log is not a packet
  have hnoted : (c.record (.handedOver msg.1 msg.2)).Batch msgs := ⟨h.buf, h.count, h.size, h.fits⟩
  have hreach' : (c.record (.handedOver msg.1 msg.2)).Reaches env := ⟨hreach.socket, hreach.address⟩
  have hquiet : Emits c (c.record (.handedOver msg.1 msg.2)) [] :=
    .nothing ((packets_record c _).trans (append_nil _))
  have hsession : (c.record (.handedOver msg.1 msg.2)).session = c.session := rfl
  unfold doSendMpDataWire
  simp only
  generalize c.record (.handedOver msg.1 msg.2) = c₁ at *
  split
  next hover =>
    split
    next hsmall =>
      -- the buffer goes out and the message starts the next one
      obtain ⟨hemits, hempty, hreach₂⟩ := hnoted.flush hreach' hcmds
      have hsession₂ := (flushSendBatch_sends env c₁).session
      have hfits : accountedSize msg.2 ≤ c₁.session.actualPmtu.toNat :=
        Nat.le_trans (Nat.le_of_lt hsmall) hnoted.fits
      refine ⟨msgs, [msg], hquiet.trans hsession (hemits.quiet rfl),
        hempty.push by' ?_, ⟨hreach₂.socket, hreach₂.address⟩, .refl _⟩
      rw [hempty.size, hsession₂]
      exact Nat.le_trans (Nat.le_of_eq (Nat.zero_add _)) hfits
    next hlarge =>
      -- the message overtakes what is buffered
      obtain ⟨hpackets, hreach₂⟩ := sendRawPacketCmd_packets hreach' msg.1 msg.2 by'
      have hsent : Emits c₁ (c₁.sendRawPacketCmd env msg.1 msg.2 by') [msg] := by
        refine ⟨[(msg, [msg])], hpackets, rfl, fun p hp => ?_⟩
        rw [mem_singleton.mp hp]
        exact delivers_single _ hmsg
      have hout := sendRawPacketCmd_out env c₁ msg.1 msg.2 by'
      have hsession₂ := (sendRawPacketCmd_sends env c₁ msg.1 msg.2 by').session
      refine ⟨[msg], msgs, hquiet.trans hsession hsent, ?_, hreach₂, perm_append_comm⟩
      exact ⟨by rw [sendCommandRaw, hout, hnoted.buf], by rw [sendCommandRaw, hout, hnoted.count],
        by rw [sendCommandRaw, hout, hnoted.size],
        by rw [sendCommandRaw, hout, hsession₂]; exact hnoted.fits⟩
  next hfits =>
    refine ⟨[], msgs ++ [msg], hquiet.quiet rfl,
      hnoted.push by' (Nat.le_of_not_lt hfits), ⟨hreach'.socket, hreach'.address⟩, .refl _⟩

/-! ## Messages handed over -/

theorem handovers_sendRawPacketCmd (c : Client) (cmd : UInt8) (payload : Bytes) (by' : List Nat) :
    (c.sendRawPacketCmd env cmd payload by').handovers = c.handovers := by
  have haddr : (c.serverSocketAddr env).2.handovers = c.handovers := by
    unfold serverSocketAddr
    split <;> rfl
  unfold sendRawPacketCmd
  simp only
  split
  · exact haddr
  split
  · exact haddr
  · rw [← haddr]
    exact (handoversOf_append _ _).trans (append_nil _)

theorem handovers_flushSendBatch (c : Client) : (c.flushSendBatch env).handovers = c.handovers := by
  unfold flushSendBatch
  split
  · rfl
  simp only
  show Client.handovers (if _ then _ else _) = _
  split
  · exact handovers_sendRawPacketCmd c _ _ _
  split
  · exact handovers_sendRawPacketCmd c _ _ _
  · rfl

theorem handovers_doSendMpDataWire (c : Client) (cmd : UInt8) (data : Bytes) (by' : List Nat) :
    (c.doSendMpDataWire env cmd data by').handovers = c.handovers ++ [(cmd, data)] := by
  have hrec : (c.record (.handedOver cmd data)).handovers = c.handovers ++ [(cmd, data)] :=
    handoversOf_append _ _
  unfold doSendMpDataWire
  simp only
  split
  · split
    · exact (handovers_flushSendBatch _).trans hrec
    · exact (handovers_sendRawPacketCmd _ _ _ _).trans hrec
  · exact hrec

/-- From `c` to `c'` exactly these messages were handed over. If the server can be reached and
no message is itself Grouped, what was buffered and they are on the wire or buffered. -/
structure Hands (env : Env) (c c' : Client) (msgs : List WireMessage) : Prop where
  handovers : c'.handovers = c.handovers ++ msgs
  session : c'.session = c.session
  batch : ∀ {old}, c.Batch old → c.Reaches env → (∀ msg ∈ old ++ msgs, ¬ isGrouped msg.1) →
    ∃ out new, Emits c c' out ∧ c'.Batch new ∧ c'.Reaches env ∧ (out ++ new).Perm (old ++ msgs)

/-- What the batch works with. -/
def wire (c : Client) :=
  (c.out.tmpSendBuf, c.out.tmpSendCount, c.out.tmpSendSize, c.session, c.socket,
    c.cachedServerAddr, c.trace.lookups, c.trace.log)

theorem Hands.quiet {c c' : Client} (h : c'.wire = c.wire) : Hands env c c' [] := by
  simp only [wire, Prod.mk.injEq] at h
  obtain ⟨hbuf, hcount, hsize, hsession, hsocket, haddr, hlookups, hlog⟩ := h
  refine ⟨by simp [Client.handovers, hlog], hsession, fun {old} hold hreach _ =>
    ⟨[], old, .nothing (by rw [packets, hlog]; rfl), ?_, ?_, by simp⟩⟩
  · exact ⟨hbuf.trans hold.buf, hcount.trans hold.count, hsize.trans hold.size,
      by rw [hsize, hsession]; exact hold.fits⟩
  · exact ⟨by rw [hsocket]; exact hreach.socket, by rw [haddr, hlookups]; exact hreach.address⟩

theorem Hands.call {c : Client} (msg : WireMessage) (by' : List Nat) :
    Hands env c (c.doSendMpDataWire env msg.1 msg.2 by') [msg] where
  handovers := handovers_doSendMpDataWire c _ _ _
  session := (doSendMpDataWire_sends env c _ _ _).session
  batch hold hreach hcmds := hold.call hreach (fun m hm => hcmds m (mem_append_left _ hm))
    (hcmds msg (mem_append_right _ (mem_singleton.mpr rfl))) by'

theorem Hands.trans {c₁ c₂ c₃ : Client} {msgs₁ msgs₂ : List WireMessage}
    (h₁ : Hands env c₁ c₂ msgs₁) (h₂ : Hands env c₂ c₃ msgs₂) :
    Hands env c₁ c₃ (msgs₁ ++ msgs₂) where
  handovers := by rw [h₂.handovers, h₁.handovers, append_assoc]
  session := h₂.session.trans h₁.session
  batch {old} hold hreach hcmds := by
    rw [← append_assoc] at hcmds ⊢
    obtain ⟨out, mid, hemits, hmid, hreach₂, hperm⟩ :=
      h₁.batch hold hreach fun msg hmsg => hcmds msg (mem_append_left _ hmsg)
    have hkept : ∀ msg ∈ mid, msg ∈ old ++ msgs₁ := fun msg hmsg =>
      hperm.subset (mem_append_right out hmsg)
    obtain ⟨out', new, hemits', hnew, hreach₃, hperm'⟩ := h₂.batch hmid hreach₂ fun msg hmsg =>
      hcmds msg (mem_append.mpr ((mem_append.mp hmsg).imp_left (hkept msg)))
    refine ⟨out ++ out', new, hemits.trans h₁.session hemits', hnew, hreach₃, ?_⟩
    calc (out ++ out' ++ new).Perm (out ++ (mid ++ msgs₂)) := by
          rw [append_assoc]
          exact hperm'.append_left out
      _ = (out ++ mid) ++ msgs₂ := (append_assoc _ _ _).symm
      Perm _ (old ++ msgs₁ ++ msgs₂) := hperm.append_right _

/-- A sequence of calls: command, bytes, and the ciphers behind them. -/
def sendAll (env : Env) (c : Client) (calls : List (WireMessage × List Nat)) : Client :=
  calls.foldl (fun c call => c.doSendMpDataWire env call.1.1 call.1.2 call.2) c

/-- **Any sequence of calls.** -/
theorem sendAll_hands : ∀ (calls : List (WireMessage × List Nat)) (c : Client),
    Hands env c (c.sendAll env calls) (calls.map Prod.fst)
  | [], _ => .quiet rfl
  | call :: calls, _ => (Hands.call call.1 call.2).trans (sendAll_hands calls _)

/-- **Batching loses nothing**: of any sequence of calls that starts with an empty
buffer and ends with a flush, the packets on the wire decode to exactly the messages
that were passed in, up to order. A Grouped packet and its transport header fit the
path MTU, and the lengths in it are the real ones. -/
theorem grouped_batching_lossless (hbuf : c.out.tmpSendBuf = []) (hcount : c.out.tmpSendCount = 0)
    (hsize : c.out.tmpSendSize = 0) (hreach : c.Reaches env)
    (calls : List (WireMessage × List Nat)) (hcalls : ∀ call ∈ calls, ¬ isGrouped call.1.1) :
    ∃ (c' : Client) (packets : List WireMessage),
      c' = (c.sendAll env calls).flushSendBatch env ∧ c'.packets = c.packets ++ packets ∧
      (packets.flatMap packetCommands).Perm (calls.map Prod.fst) ∧
      (∀ packet ∈ packets, isGrouped packet.1 → packet.2.length + 15 ≤ c.session.actualPmtu.toNat ∧
        packet.2 = (packetCommands packet).flatMap groupItem ∧
        ∀ msg ∈ packetCommands packet, (UInt16.ofNat msg.2.length).toNat = msg.2.length) ∧
      c'.out.tmpSendBuf = [] ∧ c'.out.tmpSendCount = 0 ∧ c'.out.tmpSendSize = 0 := by
  have hempty : c.Batch [] := ⟨hbuf, hcount, hsize, hsize ▸ Nat.zero_le _⟩
  have hands := @sendAll_hands env calls c
  have hplain : ∀ msg ∈ calls.map Prod.fst, ¬ isGrouped msg.1 := forall_mem_map.mpr hcalls
  obtain ⟨out, msgs, hemits, hbatch, hreach', hperm⟩ := hands.batch hempty hreach hplain
  obtain ⟨hflushed, hdone, -⟩ := hbatch.flush hreach' fun msg hmsg =>
    hplain msg (hperm.subset (mem_append_right out hmsg))
  obtain ⟨sent, hpackets, hout, hdelivers⟩ := hemits.trans hands.session hflushed
  refine ⟨_, sent.map Prod.fst, rfl, hpackets, ?_, ?_, hdone.buf, hdone.count, hdone.size⟩
  · have hdecoded : (sent.map Prod.fst).flatMap packetCommands = out ++ msgs := by
      rw [hout, flatMap_map]
      exact flatMap_congr fun p hp => (hdelivers p hp).commands
    rw [hdecoded]
    exact hperm
  · intro packet hmem hgrouped
    obtain ⟨p, hp, rfl⟩ := List.mem_map.mp hmem
    rw [(hdelivers p hp).commands]
    exact (hdelivers p hp).grouped hgrouped

end Client

namespace Sample

/-- Two pings, a message that is too large for the buffer, and a third ping. -/
def batchCalls : List (WireMessage × List Nat) :=
  [((Command.ping.toByte, [1]), []), ((Command.ping.toByte, [2, 3]), []),
    ((Command.order.toByte, List.replicate 1500 7), []), ((Command.ping.toByte, []), [])]

end Sample

namespace Client

theorem grouped_batching_lossless_sample : ∃ c' : Client, ∃ packets : List WireMessage,
      c' = ((Sample.after Sample.session).sendAll .sample
        Sample.batchCalls).flushSendBatch .sample ∧
      c'.packets = (Sample.after Sample.session).packets ++ packets ∧
      (packets.flatMap packetCommands).Perm (Sample.batchCalls.map Prod.fst) := by
  obtain ⟨c', packets, hc', hpackets, hperm, -⟩ :=
    @grouped_batching_lossless .sample (Sample.after Sample.session) (by decide +kernel)
      (by decide +kernel) (by decide +kernel) ⟨by decide +kernel, by decide +kernel⟩
      Sample.batchCalls (by decide)
  exact ⟨c', packets, hc', hpackets, hperm⟩

/-- A message under the command Grouped goes out alone and the receiver takes it
apart: nothing comes out. -/
theorem grouped_batching_lossless_nested : ((Sample.after Sample.session).out.tmpSendBuf = [] ∧
      (Sample.after Sample.session).out.tmpSendCount = 0 ∧
      (Sample.after Sample.session).out.tmpSendSize = 0 ∧
      (Sample.after Sample.session).Reaches .sample) ∧
    ∃ (c' : Client) (packets : List WireMessage),
      c' = ((Sample.after Sample.session).sendAll .sample
        [((Command.grouped.toByte, []), [])]).flushSendBatch .sample ∧
      c'.packets = (Sample.after Sample.session).packets ++ packets ∧
      packets = [(Command.grouped.toByte, [])] ∧ packets.flatMap packetCommands = [] := by
  refine ⟨⟨?_, ?_, ?_, ?_, ?_⟩, _, [(Command.grouped.toByte, [])], rfl, ?_, rfl, ?_⟩
  all_goals decide +kernel

end Client

end MoonProto
