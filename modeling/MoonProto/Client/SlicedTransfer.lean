import MoonProto.Client.SendRoundTrip
import MoonProto.Lib.Run

/-!
# A sliced message, from the queue to the peer

`create_sliced_and_send` cuts a message, and the blocks reach the peer in any
order, some of them more than once, between blocks of other datagrams, clock
ticks and cleanups. While the peer's clock stays inside the dedup window that the
first block opened, the message comes out once, with the block that was the last
one missing, and it is the message that was cut.
-/

namespace MoonProto

open Codec List Option Function SlicingReceiver

/-! ## The receiver at work -/

/-- What happens to a `SlicingReceiver`: the clock moves and a cleanup may run,
the payload of a Sliced packet arrives, the caller removes a datagram it was
given. -/
inductive SlicerEvent
  | tick (ms : Int) (cleanupOrder : List UInt16)
  | block (payload : Bytes) (ackSession : UInt32)
  | remove (num : UInt16)

/-- The payloads that arrived, in order. -/
def arrivedBlocks (events : List SlicerEvent) : List Bytes :=
  events.filterMap fun
    | .block payload _ => some payload
    | _ => none

@[simp] theorem arrivedBlocks_snoc (events : List SlicerEvent) (e : SlicerEvent) :
    arrivedBlocks (events ++ [e]) = arrivedBlocks events ++ arrivedBlocks [e] :=
  filterMap_append

/-- A receiver and the messages it has handed out. -/
structure Slicer where
  receiver : SlicingReceiver
  handed : List Assembled

namespace Slicer

/-- One event; none of them panics. -/
def step (s : Slicer) : SlicerEvent → Option Slicer
  | .tick ms order => some { s with receiver := (s.receiver.setLastOnline ms).doCleanup order }
  | .block payload ackSession =>
    let (out, receiver) := s.receiver.onNewSlicedWithSession payload ackSession
    some ⟨receiver, s.handed ++ out.1.toList⟩
  | .remove num => some { s with receiver := s.receiver.remove num }

/-- The messages handed out under a datagram number. -/
def handedOf (s : Slicer) (num : UInt16) : List Assembled :=
  s.handed.filter (·.datagramNum == num)

/-- The circumstances of a transfer of `blocks` under `num` that began at `t₀`: the
clock stays inside the dedup window, no other block carries the number, and the
caller removes the datagram only when it has got it. -/
def Orderly (num : UInt16) (blocks : List Bytes) (t₀ : Int) (s : Slicer) : SlicerEvent → Prop
  | .tick ms _ => (ms - t₀).natAbs ≤ timeWhenCanReceiveRpt
  | .block payload _ => payload ∈ blocks ∨
      ∀ hdr, SliceHeader.fromBytes payload = some hdr → hdr.datagramNum ≠ num
  | .remove n => n ≠ num ∨ s.handedOf num ≠ []

/-! ### What has arrived -/

variable {m : Cut} {t₀ : Int} {history : List SlicerEvent} {s s' : Slicer}

/-- The numbers of the blocks of `m` that have arrived. -/
def arrivals (m : Cut) (history : List SlicerEvent) : Finset Nat :=
  (Finset.range m.count).filter fun i => m.block i ∈ arrivedBlocks history

theorem arrivals_block {i : Nat} (hi : i < m.count) (ackSession : UInt32) :
    arrivals m (history ++ [.block (m.block i) ackSession]) = insert i (arrivals m history) := by
  ext j
  have hlast : arrivedBlocks [SlicerEvent.block (m.block i) ackSession] = [m.block i] := rfl
  simp only [arrivals, Finset.mem_filter, Finset.mem_insert, Finset.mem_range, arrivedBlocks_snoc,
    hlast, mem_append, mem_singleton]
  constructor
  · rintro ⟨hj, hmem | heq⟩
    · exact .inr ⟨hj, hmem⟩
    · exact .inl (Cut.block_injective hj hi heq)
  · rintro (rfl | ⟨hj, hmem⟩)
    · exact ⟨hi, .inr rfl⟩
    · exact ⟨hj, .inl hmem⟩

theorem arrivals_other {e : SlicerEvent} (he : ∀ i < m.count, m.block i ∉ arrivedBlocks [e]) :
    arrivals m (history ++ [e]) = arrivals m history := by
  refine Finset.filter_congr fun i hi => ?_
  rw [arrivedBlocks_snoc, mem_append, or_iff_left (he i (Finset.mem_range.mp hi))]

/-! ### The transfer -/

/-- While the transfer of `m` that began at `t₀` is inside its window, the receiver
has exactly the blocks that arrived, and has handed the message out once if these
are all. -/
structure Transfers (m : Cut) (t₀ : Int) (history : List SlicerEvent) (s : Slicer) : Prop where
  slot : s.receiver.lastRecvdTs (bucket m.num) = t₀
  online : (s.receiver.lastOnline - t₀).natAbs ≤ timeWhenCanReceiveRpt
  entry : SlicingReceiver.Entry m (arrivals m history) s.receiver
  complete : arrivals m history = Finset.range m.count →
    ∃ a, s.handedOf m.num = [a] ∧ a.IsOf m
  missing : arrivals m history ≠ Finset.range m.count → s.handedOf m.num = []

namespace Transfers

theorem not_stale (h : Transfers m t₀ history s) : s.receiver.isStale m.num = false := by
  unfold isStale
  rw [h.slot]
  exact decide_eq_false (Nat.not_lt.mpr h.online)

/-- An event that leaves the slot and the entry of the message alone, and hands
nothing out under its number. -/
theorem keeps (h : Transfers m t₀ history s) {e : SlicerEvent}
    (he : ∀ i < m.count, m.block i ∉ arrivedBlocks [e])
    (hkeeps : s.receiver.Keeps m.num s'.receiver)
    (honline : (s'.receiver.lastOnline - t₀).natAbs ≤ timeWhenCanReceiveRpt)
    (hhanded : s'.handedOf m.num = s.handedOf m.num) :
    Transfers m t₀ (history ++ [e]) s' := by
  have harrivals : arrivals m (history ++ [e]) = arrivals m history := arrivals_other he
  refine ⟨hkeeps.lastRecvdTs.trans h.slot, honline, ?_, ?_, ?_⟩
  · rw [harrivals]
    exact h.entry.of_receiving hkeeps.receiving
  · rw [harrivals, hhanded]
    exact h.complete
  · rw [harrivals, hhanded]
    exact h.missing

theorem tick (h : Transfers m t₀ history s) {ms : Int} {order : List UInt16}
    (hms : (ms - t₀).natAbs ≤ timeWhenCanReceiveRpt) :
    Transfers m t₀ (history ++ [.tick ms order])
      { s with receiver := (s.receiver.setLastOnline ms).doCleanup order } := by
  obtain ⟨hlast, hslot⟩ := doCleanup_slot (s.receiver.setLastOnline ms) order m.num
  have hfresh : (s.receiver.setLastOnline ms).isStale m.num = false := by
    unfold isStale setLastOnline
    rw [h.slot]
    exact decide_eq_false (Nat.not_lt.mpr hms)
  rcases hslot with hkeeps | ⟨hstale, -⟩
  · refine h.keeps nofun ⟨hkeeps.receiving, hkeeps.lastRecvdTs⟩ ?_ rfl
    show (((s.receiver.setLastOnline ms).doCleanup order).lastOnline - t₀).natAbs ≤ _
    rw [hlast]
    exact hms
  · exact absurd hstale (Bool.eq_false_iff.mp hfresh)

/-- A block of the message, for a receiver that had the blocks `S`. -/
theorem of_takes {S : Finset Nat} {i : Nat} {ackSession : UInt32} {history' : List SlicerEvent}
    {out : (Option Assembled × Bytes) × SlicingReceiver} (hi : i < m.count)
    (htakes : SlicingReceiver.Takes m S i ackSession s.receiver out)
    (harrivals : arrivals m history' = insert i S)
    (hslot : out.2.lastRecvdTs (bucket m.num) = t₀)
    (honline : (s.receiver.lastOnline - t₀).natAbs ≤ timeWhenCanReceiveRpt)
    (hcomplete : S = Finset.range m.count → ∃ a, s.handedOf m.num = [a] ∧ a.IsOf m)
    (hmissing : S ≠ Finset.range m.count → s.handedOf m.num = []) :
    Transfers m t₀ history' ⟨out.2, s.handed ++ out.1.1.toList⟩ := by
  have hhanded : Slicer.handedOf ⟨out.2, s.handed ++ out.1.1.toList⟩ m.num
      = s.handedOf m.num ++ out.1.1.toList.filter (·.datagramNum == m.num) := filter_append ..
  have hout := htakes.assembled
  refine ⟨hslot, ?_, harrivals ▸ htakes.entry, ?_, ?_⟩
  · rw [← htakes.lastOnline] at honline
    exact honline
  · rw [harrivals, hhanded]
    intro hfull
    by_cases hS : S = Finset.range m.count
    · rw [if_neg fun hc => hc.2 hS] at hout
      rw [hout, toList_none, filter_nil, append_nil]
      exact hcomplete hS
    · rw [if_pos ⟨hfull, hS⟩] at hout
      obtain ⟨a, ha, hof⟩ := hout
      refine ⟨a, ?_, hof⟩
      rw [hmissing hS, ha, nil_append]
      exact filter_cons_of_pos (beq_iff_eq.mpr hof.datagramNum)
  · rw [harrivals, hhanded]
    intro hpartly
    have hS : S ≠ Finset.range m.count := by
      rintro rfl
      exact hpartly (Finset.insert_eq_of_mem (Finset.mem_range.mpr hi))
    rw [if_neg fun hc => hpartly hc.1] at hout
    rw [hout, hmissing hS]
    rfl

theorem block (h : Transfers m t₀ history s) {i : Nat} (hi : i < m.count) (ackSession : UInt32) :
    Transfers m t₀ (history ++ [.block (m.block i) ackSession])
      ⟨(s.receiver.onNewSlicedWithSession (m.block i) ackSession).2,
        s.handed ++ (s.receiver.onNewSlicedWithSession (m.block i) ackSession).1.1.toList⟩ := by
  have htakes := onNewSliced_takes (.later h.not_stale h.entry) hi ackSession
  refine of_takes hi htakes (arrivals_block hi ackSession) ?_ h.online h.complete h.missing
  rw [htakes.stamped, if_neg (by rw [h.not_stale]; exact Bool.false_ne_true)]
  exact h.slot

theorem first {r : SlicingReceiver} (hstale : r.isStale m.num = true) {i : Nat} (hi : i < m.count)
    (ackSession : UInt32) :
    Transfers m r.lastOnline [.block (m.block i) ackSession]
      ⟨(r.onNewSlicedWithSession (m.block i) ackSession).2,
        [] ++ (r.onNewSlicedWithSession (m.block i) ackSession).1.1.toList⟩ := by
  have htakes := onNewSliced_takes (.first hstale rfl) hi ackSession
  have hnone : arrivals m [] = ∅ := Finset.filter_false_of_mem nofun
  have hone : arrivals m [SlicerEvent.block (m.block i) ackSession] = insert i ∅ := by
    rw [← hnone, ← arrivals_block hi ackSession, nil_append]
  refine @of_takes m r.lastOnline ⟨r, []⟩ ∅ i ackSession _ _ hi htakes hone ?_ ?_ (fun hS => ?_)
    fun _ => rfl
  · rw [htakes.stamped, if_pos hstale, update_self]
  · rw [Int.sub_self]
    exact Nat.zero_le _
  · exact absurd hS m.empty_ne_range

/-- What comes out carries the number of the block. -/
theorem other (h : Transfers m t₀ history s) {payload : Bytes}
    (hother : ∀ hdr, SliceHeader.fromBytes payload = some hdr → hdr.datagramNum ≠ m.num)
    (ackSession : UInt32) :
    Transfers m t₀ (history ++ [.block payload ackSession])
      ⟨(s.receiver.onNewSlicedWithSession payload ackSession).2,
        s.handed ++ (s.receiver.onNewSlicedWithSession payload ackSession).1.1.toList⟩ := by
  obtain ⟨hkeeps, hlast⟩ := onNewSliced_keeps h.not_stale hother ackSession
  refine h.keeps (fun i _ hmem => ?_) hkeeps ?_ ?_
  · have heq : m.block i = payload := List.mem_singleton.mp hmem
    exact hother (m.header i) (heq ▸ m.fromBytes_block i) rfl
  · show ((s.receiver.onNewSlicedWithSession _ _).2.lastOnline - t₀).natAbs ≤ _
    rw [hlast]
    exact h.online
  · have hnone : (s.receiver.onNewSlicedWithSession payload ackSession).1.1.toList.filter
        (·.datagramNum == m.num) = [] := by
      refine List.filter_eq_nil_iff.mpr fun a ha => ?_
      obtain ⟨hdr, hhdr, hnum⟩ := onNewSliced_num (mem_toList.mp ha)
      rw [beq_iff_eq, hnum]
      exact hother hdr hhdr
    exact (filter_append ..).trans (by rw [hnone, append_nil]; rfl)

theorem remove (h : Transfers m t₀ history s) {num : UInt16}
    (hnum : num ≠ m.num ∨ s.handedOf m.num ≠ []) :
    Transfers m t₀ (history ++ [.remove num]) { s with receiver := s.receiver.remove num } := by
  by_cases heq : num = m.num
  · have hfull : arrivals m history = Finset.range m.count := by
      by_contra hmissing
      rcases hnum with hne | hhanded
      · exact hne heq
      · exact hhanded (h.missing hmissing)
    have harrivals : arrivals m (history ++ [.remove num]) = arrivals m history :=
      arrivals_other nofun
    refine ⟨h.slot, h.online, ?_, ?_, fun hc => absurd (harrivals.trans hfull) hc⟩
    · refine .wholly (harrivals.trans hfull) fun d hd => ?_
      have hgone : (s.receiver.remove num).receiving m.num = none := by
        rw [heq]
        exact update_self ..
      rw [show (s.receiver.remove num).receiving m.num = some d from hd] at hgone
      cases hgone
    · rw [harrivals]
      exact h.complete
  · refine h.keeps nofun ⟨?_, rfl⟩ h.online rfl
    exact update_of_ne (Ne.symm heq) _ _

/-- **One event.** -/
theorem step (h : Transfers m t₀ history s) {e : SlicerEvent}
    (he : Orderly m.num m.blocks t₀ s e) (hs : s.step e = some s') :
    Transfers m t₀ (history ++ [e]) s' := by
  cases e with
  | tick ms order =>
    cases hs
    exact h.tick he
  | block payload ackSession =>
    cases hs
    rcases he with hmem | hother
    · obtain ⟨i, hi, rfl⟩ := Cut.mem_blocks.mp hmem
      exact h.block hi ackSession
    · exact h.other hother ackSession
  | remove num =>
    cases hs
    exact h.remove he

end Transfers

end Slicer

/-! ## The sender's side -/

namespace Client

variable {env : Env} {c : Client} {item : SendItem}

/-- What the message on the wire is: the item as compressed where that paid,
sealed if the item is encrypted. -/
structure StandsFor (env : Env) (c : Client) (item : SendItem) (msg : UInt8 × Bytes) : Prop where
  plain : item.encrypted = false → msg = maybeCompress item.cmd item.data
  sealed : ∀ key, item.encrypted = true → c.session.encodeCipher = some key → env.aead.Inverts →
    ∃ hdr plaintext, decryptCommandNoReplay env.aead key msg.2 = some (hdr, plaintext) ∧
      (hdr.cmd, plaintext.drop 12) = maybeCompress item.cmd item.data
  unpacks : item.data.length ≤ SynLZ.maxDecompressedSize →
    maybeCompress item.cmd item.data = (item.cmd, item.data) ∨
      ((maybeCompress item.cmd item.data).1 = item.cmd ||| compressedFlag ∧
        SynLZ.mpDecompress (maybeCompress item.cmd item.data).2 = some item.data)

end Client

end MoonProto
