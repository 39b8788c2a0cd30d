import Mathlib
import MoonProto.State.OrderBookSync

/-!
# The reorder cache of a book

What holds of the cache of a book between two packets: in a sound cache the packets stand in
the order of their distance from the expected number and each is ahead of it by less than half
the circle, their number is limited, the time since when packets wait is set exactly if some
wait, and requests for a full snapshot come from a corrupted book and keep their interval.

The order is that of `OrderBookCache.Ordered` and needs its condition on the packets. The limit
needs one of its own: a gap may leave one packet more than the limit in a cache that it marks
as corrupted, a corrupted cache that drops one packet for every new one stays at that size,
and the next full snapshot declares it sound again. So does the interval: a reset of the caches
forgets the time of the last request.
-/

namespace MoonProto

open Serial List Function Option

variable {lvl : Type}

/-! ## The operations -/

namespace OrderBookCache

/-- The time since when packets wait is set exactly if there are some. -/
def Stamped (c : OrderBookCache lvl) : Prop :=
  c.cacheNotEmptySinceMs ≠ 0 ↔ c.packets ≠ []

/-- The number of packets, one above the limit only in a corrupted cache. -/
structure Sized (c : OrderBookCache lvl) : Prop where
  all : c.packets.length ≤ bookCacheMaxPackets + 1
  sound : c.corrupted = false → c.packets.length ≤ bookCacheMaxPackets

theorem checkCacheEmpty_stamped {c : OrderBookCache lvl}
    (h : c.packets ≠ [] → c.cacheNotEmptySinceMs ≠ 0) : c.checkCacheEmpty.Stamped := by
  unfold checkCacheEmpty Stamped
  by_cases hempty : c.packets = []
  · rw [if_pos (List.isEmpty_iff.mpr hempty)]
    exact ⟨fun hne => absurd rfl hne, fun hne => absurd hempty hne⟩
  · rw [if_neg (mt List.isEmpty_iff.mp hempty)]
    exact ⟨fun _ => hempty, h⟩

variable (c : OrderBookCache lvl)

theorem checkCacheEmpty_lastFullRequestMs :
    c.checkCacheEmpty.lastFullRequestMs = c.lastFullRequestMs := by
  unfold checkCacheEmpty
  split <;> rfl

theorem length_add (seq : UInt16) (pkt : OrderBookUpdate lvl)
    (nowMs : Int) : (c.add seq pkt nowMs).packets.length = c.packets.length + 1 :=
  length_insertIdx_of_le_length (Slots.partitionPoint_le _ _) _

theorem add_stamped {c : OrderBookCache lvl} (h : c.Stamped) (seq : UInt16)
    (pkt : OrderBookUpdate lvl) {nowMs : Int} (hnow : nowMs ≠ 0) :
    (c.add seq pkt nowMs).Stamped := by
  have hne : (c.add seq pkt nowMs).packets ≠ [] := by
    rw [← length_pos_iff, length_add]
    exact Nat.succ_pos _
  refine ⟨fun _ => hne, fun _ => ?_⟩
  unfold add
  dsimp only
  split
  · exact hnow
  · next hsome => exact h.mpr (mt List.isEmpty_iff.mpr hsome)

/-- A request is made by a corrupted cache only, with the interval kept. -/
theorem tryRequestFull_cases (nowMs : Int) : c.tryRequestFull nowMs = (false, c) ∨
      (c.corrupted = true ∧ bookFullRequestThrottle < (nowMs - c.lastFullRequestMs).natAbs ∧
        c.tryRequestFull nowMs = (true, { c with lastFullRequestMs := nowMs })) := by
  unfold tryRequestFull
  by_cases hcorrupted : c.corrupted = true
  · rw [if_neg (by rw [hcorrupted]; decide)]
    by_cases hearly : (nowMs - c.lastFullRequestMs).natAbs ≤ bookFullRequestThrottle
    · rw [if_pos hearly]
      exact .inl rfl
    · rw [if_neg hearly]
      exact .inr ⟨hcorrupted, Nat.lt_of_not_le hearly, rfl⟩
  · rw [if_pos (by rw [Bool.eq_false_iff.mpr hcorrupted]; decide)]
    exact .inl rfl

end OrderBookCache

namespace BookSlot

variable (merge : Bool → List lvl → List lvl → List lvl → List lvl)

open OrderBookCache

theorem makeRoom_lastFullRequestMs (c : OrderBookCache lvl) (seq : UInt16) :
    (makeRoom c seq).lastFullRequestMs = c.lastFullRequestMs := by
  unfold makeRoom
  dsimp only
  split
  · exact checkCacheEmpty_lastFullRequestMs _
  · rfl

variable {c : OrderBookCache lvl} {s : BookSlot lvl}

theorem makeRoom_length (h : c.Sized) (seq : UInt16) :
    (makeRoom c seq).packets.length ≤ bookCacheMaxPackets := by
  have hall := h.all
  unfold makeRoom
  dsimp only
  split
  · next hfull =>
    rw [dropOldest, (checkCacheEmpty_fields _).2.2.2, length_tail]
    exact Nat.sub_le_of_le_add hall
  · next hroom => exact Nat.le_of_not_le hroom

theorem makeRoom_stamped (h : c.Stamped) (seq : UInt16) : (makeRoom c seq).Stamped := by
  unfold makeRoom
  dsimp only
  split
  · refine checkCacheEmpty_stamped fun hne => h.mpr fun hnil => ?_
    dsimp only at hne
    rw [hnil] at hne
    exact hne rfl
  · exact h

/-- What the drain does to the other fields of the cache. -/
theorem drainLoop_keeps : ∀ (packets : List (CachedPacket lvl)) (s : BookSlot lvl),
    (drainLoop merge packets s).2.cache.packets.Sublist packets ∧
    (drainLoop merge packets s).2.cache.corrupted = s.cache.corrupted ∧
    (drainLoop merge packets s).2.cache.lastFullRequestMs = s.cache.lastFullRequestMs ∧
    (drainLoop merge packets s).2.cache.cacheNotEmptySinceMs = s.cache.cacheNotEmptySinceMs
  | [], _ => ⟨Sublist.refl _, rfl, rfl, rfl⟩
  | p :: rest, s => by
    unfold drainLoop
    split
    · exact ⟨Sublist.refl _, rfl, rfl, rfl⟩
    obtain ⟨hpackets, hfields⟩ := drainLoop_keeps rest
      ⟨{ s.cache with expectedSeq := p.seq + 1, lastAppliedSeq := p.seq },
        some (s.applyPacket merge p.pkt)⟩
    exact ⟨hpackets.trans (sublist_cons_self p rest), hfields⟩

theorem drainCache_keeps (h : s.cache.packets ≠ [] → s.cache.cacheNotEmptySinceMs ≠ 0) :
    (drainCache merge s).2.cache.packets.length ≤ s.cache.packets.length ∧
    (drainCache merge s).2.cache.corrupted = s.cache.corrupted ∧
    (drainCache merge s).2.cache.lastFullRequestMs = s.cache.lastFullRequestMs ∧
    (drainCache merge s).2.cache.Stamped := by
  obtain ⟨hpackets, hcorrupted, hlast, hsince⟩ := drainLoop_keeps merge
    s.cache.retainAhead.packets { s with cache := s.cache.retainAhead }
  have hsub := hpackets.trans filter_sublist
  obtain ⟨h₁, -, -, h₃⟩ := checkCacheEmpty_fields
    (drainLoop merge s.cache.retainAhead.packets { s with cache := s.cache.retainAhead }).2.cache
  refine ⟨?_, h₁.trans hcorrupted, (checkCacheEmpty_lastFullRequestMs _).trans hlast,
    checkCacheEmpty_stamped fun hne => ?_⟩
  · rw [show (drainCache merge s).2.cache.packets = _ from h₃]
    exact hsub.length_le
  · rw [hsince]
    refine h fun hnil => hne ?_
    rw [hnil] at hsub
    exact sublist_nil.mp hsub

/-! ## One packet -/

/-- What one packet does to the cache: it stays stamped and within its size, and a request
is made by a corrupted book, the interval after the last one. -/
structure Tended (s : BookSlot lvl) (nowMs : Int) (out : BookEffects lvl × BookSlot lvl) :
    Prop where
  stamped : out.2.cache.Stamped
  sized : out.2.cache.Sized
  request : (out.1.requestFull = false ∧
      out.2.cache.lastFullRequestMs = s.cache.lastFullRequestMs) ∨
    (out.1.requestFull = true ∧ out.2.cache.corrupted = true ∧
      bookFullRequestThrottle < (nowMs - s.cache.lastFullRequestMs).natAbs ∧
      out.2.cache.lastFullRequestMs = nowMs)

theorem applyAndDrain_tended (pkt : OrderBookUpdate lvl) (nowMs : Int)
    (hstamp : c.packets ≠ [] → c.cacheNotEmptySinceMs ≠ 0)
    (hlength : c.packets.length ≤ bookCacheMaxPackets)
    (hlast : c.lastFullRequestMs = s.cache.lastFullRequestMs) :
    Tended s nowMs (applyAndDrain merge s pkt c) := by
  obtain ⟨hle, -, hlast', hstamped⟩ :=
    drainCache_keeps merge (s := ⟨c, some (s.applyPacket merge pkt)⟩) hstamp
  have hbound := Nat.le_trans hle hlength
  exact ⟨hstamped, ⟨Nat.le_succ_of_le hbound, fun _ => hbound⟩, .inl ⟨rfl, hlast'.trans hlast⟩⟩

theorem tended_of_request {nowMs : Int} {out : BookEffects lvl × BookSlot lvl}
    (hout : (out.1.requestFull, out.2.cache) = c.tryRequestFull nowMs) (hstamped : c.Stamped)
    (hsized : c.Sized) (hlast : c.lastFullRequestMs = s.cache.lastFullRequestMs) :
    Tended s nowMs out := by
  rcases tryRequestFull_cases c nowMs with heq | ⟨hcorrupted, hinterval, heq⟩
  · obtain ⟨hrequest, hcache⟩ := Prod.mk.inj (hout.trans heq)
    refine ⟨hcache ▸ hstamped, hcache ▸ hsized, .inl ⟨hrequest, ?_⟩⟩
    rw [hcache, hlast]
  · obtain ⟨hrequest, hcache⟩ := Prod.mk.inj (hout.trans heq)
    rw [hlast] at hinterval
    refine ⟨hcache ▸ hstamped, ?_, .inr ⟨hrequest, ?_, hinterval, ?_⟩⟩
    · rw [hcache]
      exact ⟨hsized.all, hsized.sound⟩
    · rw [hcache]
      exact hcorrupted
    · rw [hcache]

/-- **One packet** keeps the cache stamped and sized, if a full snapshot does not find one
packet too many. -/
theorem onPacketInto_tended (hstamped : s.cache.Stamped)
    (hsized : s.cache.Sized) {pkt : OrderBookUpdate lvl} {nowMs : Int} (hnow : nowMs ≠ 0)
    (hroom : pkt.isFull = true → s.cache.packets.length ≤ bookCacheMaxPackets) :
    Tended s nowMs (s.onPacketInto merge pkt nowMs) := by
  unfold onPacketInto
  dsimp only
  split
  · next hfull =>
    have hreset : (resetBy s.cache pkt).retainAhead.checkCacheEmpty.Stamped := by
      refine checkCacheEmpty_stamped fun hne => hstamped.mpr fun hnil => hne ?_
      show List.filter _ s.cache.packets = []
      rw [hnil]
      rfl
    refine applyAndDrain_tended merge pkt nowMs hreset.mpr ?_
      (checkCacheEmpty_lastFullRequestMs _)
    rw [(checkCacheEmpty_fields _).2.2.2]
    exact Nat.le_trans filter_sublist.length_le (hroom hfull)
  · split
    · next hcorrupted =>
      have hadded := add_stamped (makeRoom_stamped hstamped pkt.seq) pkt.seq pkt hnow
      refine tended_of_request (c := (makeRoom s.cache pkt.seq).add pkt.seq pkt nowMs) rfl hadded
        ⟨?_, fun hsound => ?_⟩ (makeRoom_lastFullRequestMs s.cache pkt.seq)
      · rw [length_add]
        exact Nat.succ_le_succ (makeRoom_length hsized pkt.seq)
      · have hcorr := (makeRoom_fields s.cache pkt.seq).1.trans hcorrupted
        exact absurd (hcorr.symm.trans hsound) (by decide)
    · next hcorrupted =>
      have hle := hsized.sound (Bool.not_eq_true _ ▸ hcorrupted)
      split
      · exact applyAndDrain_tended merge pkt nowMs hstamped.mpr hle rfl
      split
      · exact ⟨hstamped, hsized, .inl ⟨rfl, rfl⟩⟩
      have hadded := add_stamped hstamped pkt.seq pkt hnow
      have hlength := length_add s.cache pkt.seq pkt nowMs
      refine tended_of_request (c := _) rfl ?_ ?_ ?_
      · split
        · exact hadded
        · exact hadded
      · split
        · exact ⟨hlength ▸ Nat.succ_le_succ hle, nofun⟩
        · next hmark =>
          rw [Bool.or_eq_true, not_or, decide_eq_true_iff, Nat.not_lt] at hmark
          exact ⟨Nat.le_succ_of_le hmark.2, fun _ => hmark.2⟩
      · split <;> rfl

end BookSlot

/-! ## Runs -/

/-- A request for a full snapshot, and whether the cache was corrupted when it was made. -/
structure FullRequest where
  atMs : Int
  corrupted : Bool
deriving DecidableEq

/-- More than the request interval lies between two requests. -/
def FullRequest.Spaced (later earlier : FullRequest) : Prop :=
  earlier.atMs + (bookFullRequestThrottle : Int) < later.atMs

/-- All books with the time of the last packet and the requests for each book, the last one
first. -/
structure CacheRun (lvl : Type) where
  books : OrderBooks lvl
  clock : Int
  requests : BookKey → List FullRequest

namespace CacheRun

variable (merge : Bool → List lvl → List lvl → List lvl → List lvl)

def new : CacheRun lvl := ⟨.new, 0, fun _ => []⟩

def step (r : CacheRun lvl) : BookAction lvl → Option (CacheRun lvl)
  | .packet pkt nowMs =>
    let out := (r.books.slot pkt.key).onPacketInto merge pkt nowMs
    some ⟨(r.books.onPacketInto merge pkt nowMs).2, nowMs,
      if out.1.requestFull then Function.update r.requests pkt.key
        (⟨nowMs, out.2.cache.corrupted⟩ :: r.requests pkt.key) else r.requests⟩
  | .reset => some { r with books := r.books.resetCachesKeepBooks }

/-- A packet that finds no cache comes more than the interval after the last request. -/
def Rested (r : CacheRun lvl) (key : BookKey) (nowMs : Int) : Bool :=
  (r.books.caches key).isSome ||
    (r.requests key).all fun request => request.atMs + (bookFullRequestThrottle : Int) < nowMs

/-- The clock has left 0 and does not go back, a packet that goes to a cache fits there, a
full snapshot does not find one packet more than the limit, and behind a reset the interval
has passed. -/
def Regular (r : CacheRun lvl) : BookAction lvl → Bool
  | .packet pkt nowMs => decide (0 < nowMs) && decide (r.clock ≤ nowMs) &&
      (r.books.slot pkt.key).fitsCache pkt && (!pkt.isFull ||
        decide ((r.books.slot pkt.key).cache.packets.length ≤ bookCacheMaxPackets)) &&
      r.Rested pkt.key nowMs
  | .reset => true

/-- What holds of a sound cache. -/
structure SoundCache (c : OrderBookCache lvl) : Prop where
  ordered : c.packets.Pairwise fun p q => ahead c.expectedSeq p.seq < ahead c.expectedSeq q.seq
  window : ∀ p ∈ c.packets,
    0 < ahead c.expectedSeq p.seq ∧ ahead c.expectedSeq p.seq < 2 ^ 15
  limited : c.packets.length ≤ bookCacheMaxPackets
  stamped : c.cacheNotEmptySinceMs ≠ 0 ↔ c.packets ≠ []

/-- **The reorder cache invariant**: of every sound cache, and of the requests of every book. -/
structure Tidy (r : CacheRun lvl) : Prop where
  sound : ∀ key, (r.books.slot key).cache.corrupted = false →
    SoundCache (r.books.slot key).cache
  corrupted : ∀ key, ∀ request ∈ r.requests key, request.corrupted = true
  interval : ∀ key, (r.requests key).Pairwise FullRequest.Spaced

/-- What one packet of the run preserves, for one book. A request that a cache does not know of
is past the interval. -/
structure BookInv (clock : Int) (known : Bool) (c : OrderBookCache lvl)
    (requests : List FullRequest) : Prop where
  ordered : c.Ordered
  stamped : c.Stamped
  sized : c.Sized
  corrupted : ∀ request ∈ requests, request.corrupted = true
  interval : requests.Pairwise FullRequest.Spaced
  last : known = true → ∀ request ∈ requests, request.atMs ≤ c.lastFullRequestMs ∨
    request.atMs + (bookFullRequestThrottle : Int) < clock
  past : c.lastFullRequestMs ≤ clock

def Inv (r : CacheRun lvl) : Prop :=
  0 ≤ r.clock ∧ ∀ key,
    BookInv r.clock (r.books.caches key).isSome (r.books.slot key).cache (r.requests key)

variable {clock : Int} {known : Bool} {requests : List FullRequest}

theorem BookInv.new (h : 0 ≤ clock) (hcorrupted : ∀ request ∈ requests, request.corrupted = true)
    (hinterval : requests.Pairwise FullRequest.Spaced) :
    BookInv clock false (OrderBookCache.new : OrderBookCache lvl) requests where
  ordered := ⟨List.Pairwise.nil, nofun⟩
  stamped := ⟨fun hne => absurd rfl hne, fun hne => absurd rfl hne⟩
  sized := ⟨Nat.zero_le _, fun _ => Nat.zero_le _⟩
  corrupted := hcorrupted
  interval := hinterval
  last := nofun
  past := h

theorem BookInv.later {clock' : Int} {c : OrderBookCache lvl} (h : BookInv clock known c requests)
    (hle : clock ≤ clock') : BookInv clock' known c requests :=
  { h with
    last := fun hknown request hr =>
      (h.last hknown request hr).imp_right fun hlt => Int.lt_of_lt_of_le hlt hle
    past := Int.le_trans h.past hle }

theorem BookInv.packet {nowMs : Int} {s : BookSlot lvl} (h : BookInv clock known s.cache requests)
    {pkt : OrderBookUpdate lvl} (hpos : 0 < nowMs)
    (hclock : clock ≤ nowMs) (hfits : s.fitsCache pkt = true)
    (hroom : pkt.isFull = true → s.cache.packets.length ≤ bookCacheMaxPackets)
    (hrested : known = true ∨ ∀ request ∈ requests,
      request.atMs + (bookFullRequestThrottle : Int) < nowMs) :
    let out := s.onPacketInto merge pkt nowMs
    BookInv nowMs true out.2.cache
      (if out.1.requestFull then ⟨nowMs, out.2.cache.corrupted⟩ :: requests else requests) := by
  have hordered := BookSlot.onPacketInto_ordered merge h.ordered nowMs hfits
  have htended := BookSlot.onPacketInto_tended merge h.stamped h.sized
    (Int.ne_of_gt hpos) hroom
  have hpast := Int.le_trans h.past hclock
  have hlast : ∀ request ∈ requests, request.atMs ≤ s.cache.lastFullRequestMs ∨
      request.atMs + (bookFullRequestThrottle : Int) < nowMs := fun request hr =>
    hrested.elim (fun hknown => (h.later hclock).last hknown request hr)
      fun h => .inr (h request hr)
  intro out
  rcases htended.request with ⟨hnone, hsame⟩ | ⟨hsome, hcorrupted, hinterval, hnow⟩
  · rw [if_neg (by rw [hnone]; decide)]
    exact ⟨hordered, htended.stamped, htended.sized, h.corrupted, h.interval,
      fun _ request hr => hsame ▸ hlast request hr, hsame ▸ hpast⟩
  · rw [if_pos hsome]
    refine ⟨hordered, htended.stamped, htended.sized, ?_, ?_, fun _ => ?_, Int.le_of_eq hnow⟩
    · rintro request (_ | ⟨_, hr⟩)
      · exact hcorrupted
      · exact h.corrupted request hr
    · refine pairwise_cons.mpr ⟨fun request hr => ?_, h.interval⟩
      -- the clock does not go back, so the distance is the time that has passed
      rcases hlast request hr with hle | hlt
      · show request.atMs + (bookFullRequestThrottle : Int) < nowMs
        omega
      · exact hlt
    · rintro request (_ | ⟨_, hr⟩)
      · exact .inl (Int.le_of_eq hnow.symm)
      · have := hlast request hr
        rw [hnow]
        omega

theorem step_inv {r r' : CacheRun lvl} {a : BookAction lvl} (h : r.Inv)
    (hregular : r.Regular a = true) (hstep : r.step merge a = some r') : r'.Inv := by
  cases a with
  | reset =>
    cases hstep
    exact ⟨h.1, fun key => BookInv.new h.1 (h.2 key).corrupted (h.2 key).interval⟩
  | packet pkt nowMs =>
    cases hstep
    simp only [Regular, Bool.and_eq_true, decide_eq_true_iff, Bool.or_eq_true,
      Bool.not_eq_true', Rested, List.all_eq_true] at hregular
    obtain ⟨⟨⟨⟨hpos, hclock⟩, hfits⟩, hroom⟩, hrested⟩ := hregular
    refine ⟨Int.le_of_lt hpos, fun key => ?_⟩
    by_cases hkey : key = pkt.key
    · subst hkey
      have hbook := BookInv.packet merge (h.2 pkt.key) hpos hclock hfits
        (fun hfull => hroom.resolve_left (by rw [hfull]; decide)) hrested
      dsimp only at hbook
      simp only [OrderBooks.onPacketInto, OrderBooks.slot_setSlot, OrderBooks.caches_setSlot]
      split
      · next hsome =>
        rw [update_self]
        rwa [if_pos hsome] at hbook
      · next hnone => rwa [if_neg hnone] at hbook
    · simp only [OrderBooks.onPacketInto, OrderBooks.slot_setSlot_of_ne _ _ hkey,
        OrderBooks.caches_setSlot_of_ne _ _ hkey]
      have hbook := (h.2 key).later hclock
      split
      · rwa [update_of_ne hkey]
      · exact hbook

theorem Inv.tidy {r : CacheRun lvl} (h : r.Inv) : r.Tidy where
  sound key hsound := by
    obtain ⟨hordered, hstamped, hsized, -⟩ := h.2 key
    have hwaits := hordered.waits hsound
    refine ⟨?_, hwaits, hsized.sound hsound, hstamped⟩
    exact hordered.sorted.imp_of_mem fun hp hq hbefore =>
      (before_iff (hwaits _ hp).2 (hwaits _ hq).2).mp hbefore
  corrupted key := (h.2 key).corrupted
  interval key := (h.2 key).interval

/-- **The reorder caches are tidy** in every run in which the clock does not go back, no
packet goes to a cache that has its number or, in a corrupted book, would then span more than
half the circle, no full snapshot finds a cache with one packet more than the limit, and the
first packet behind a reset comes more than the interval after the last request. -/
theorem caches_tidy {actions : List (BookAction lvl)} {r : CacheRun lvl}
    (hregular : Run.Along (step merge) (fun r a => r.Regular a = true) new actions)
    (hrun : Run.run (step merge) new actions = some r) : r.Tidy := by
  have hinv : r.Inv := Run.run_invariant (fun _ _ _ h hr => step_inv merge h hr)
    ⟨Int.le_refl 0, fun _ => BookInv.new (Int.le_refl 0) (fun _ h => absurd h not_mem_nil) .nil⟩
    hregular hrun
  exact hinv.tidy

/-- A gap that is not closed in time: two requests, the full snapshot that ends it, and a reset
in peace. -/
def expiredGap : List (BookAction Nat) :=
  [.packet (emptyPacket 65534 true) 10000, .packet (emptyPacket 0 false) 10010,
    .packet (emptyPacket 2 false) 10020, .packet (emptyPacket 3 false) 10900,
    .packet (emptyPacket 6 false) 17000, .packet (emptyPacket 2 true) 17100, .reset,
    .packet (emptyPacket 7 true) 22001, .packet (emptyPacket 9 false) 22002]

theorem caches_tidy_expired : ∃ r, Run.run (step fun _ book _ _ => book) new expiredGap = some r ∧
      ((r.requests (1, 0)).map (·.atMs) = [17000, 10900] ∧
        (r.books.slot (1, 0)).cache.packets.map (·.seq) = [9]) ∧ r.Tidy := by
  have hrun : ((Run.run (step fun _ book _ _ => book) new expiredGap).map fun r =>
      ((r.requests (1, 0)).map (·.atMs), (r.books.slot (1, 0)).cache.packets.map (·.seq))) =
      some ([17000, 10900], [9]) := by decide +kernel
  obtain ⟨r, hr, hfields⟩ := map_eq_some_iff.mp hrun
  exact ⟨r, hr, Prod.mk.inj hfields, caches_tidy _ (by decide +kernel) hr⟩

/-- The packets 4 to 68 wait for 2 and 3, one too many; then comes the full snapshot 2. -/
def overfull : List (BookAction Nat) :=
  .packet (emptyPacket 1 true) 10000 ::
    (range 65).map (fun i => .packet (emptyPacket (4 + UInt16.ofNat i) false) 10010) ++
    [.packet (emptyPacket 2 true) 10020]

/-- The same gap twice, with a reset between. -/
def resetGap : List (BookAction Nat) :=
  [.packet (emptyPacket 1 true) 10000, .packet (emptyPacket 3 false) 10010,
    .packet (emptyPacket 5 false) 10900, .reset, .packet (emptyPacket 1 true) 11000,
    .packet (emptyPacket 3 false) 11010, .packet (emptyPacket 5 false) 11900]

/-- **Three untidy caches.** Two are not corrupted: a repeated packet stays behind the expected
number, and a full snapshot leaves 65 packets. The third asks again a second after a request,
as a reset has been between. -/
theorem caches_untidy :
    (∃ r, Run.run (step fun _ book _ _ => book) new BookRun.repeatedPacket = some r ∧
      (r.books.slot (1, 0)).cache.packets.map (·.seq) = [3, 4] ∧ ¬ r.Tidy) ∧
    (∃ r, Run.run (step fun _ book _ _ => book) new overfull = some r ∧
      (r.books.slot (1, 0)).cache.packets.length = 65 ∧ ¬ r.Tidy) ∧
    ∃ r, Run.run (step fun _ book _ _ => book) new resetGap = some r ∧
      (r.requests (1, 0)).map (·.atMs) = [11900, 10900] ∧ ¬ r.Tidy := by
  have hrepeated : ((Run.run (step fun _ book _ _ => book) new BookRun.repeatedPacket).map fun r =>
      ((r.books.slot (1, 0)).cache.packets.map (·.seq),
        (r.books.slot (1, 0)).cache.expectedSeq, (r.books.slot (1, 0)).cache.corrupted)) =
      some ([3, 4], 4, false) := by decide +kernel
  have hoverfull : ((Run.run (step fun _ book _ _ => book) new overfull).map fun r =>
      ((r.books.slot (1, 0)).cache.packets.length, (r.books.slot (1, 0)).cache.corrupted)) =
      some (65, false) := by decide +kernel
  have hreset : ((Run.run (step fun _ book _ _ => book) new resetGap).map fun r =>
      (r.requests (1, 0)).map (·.atMs)) = some [11900, 10900] := by decide +kernel
  obtain ⟨r, hr, hfields⟩ := map_eq_some_iff.mp hrepeated
  obtain ⟨r', hr', hfields'⟩ := map_eq_some_iff.mp hoverfull
  obtain ⟨r'', hr'', htimes⟩ := map_eq_some_iff.mp hreset
  simp only [Prod.mk.injEq] at hfields hfields'
  refine ⟨⟨r, hr, hfields.1, fun htidy => ?_⟩, ⟨r', hr', hfields'.1, fun htidy => ?_⟩,
    r'', hr'', htimes, fun htidy => ?_⟩
  · have hwindow := (htidy.sound (1, 0) hfields.2.2).window
    obtain ⟨p, hp, hseq⟩ : ∃ p ∈ (r.books.slot (1, 0)).cache.packets, p.seq = 3 :=
      List.mem_map.mp (by rw [hfields.1]; decide)
    have hahead := (hwindow p hp).2
    rw [hfields.2.1, hseq] at hahead
    exact absurd hahead (by decide)
  · have hlimited := (htidy.sound (1, 0) hfields'.2).limited
    rw [hfields'.1] at hlimited
    exact absurd hlimited (by decide)
  · have hspaced : ((r''.requests (1, 0)).map (·.atMs)).Pairwise fun later earlier =>
        earlier + (bookFullRequestThrottle : Int) < later :=
      (htidy.interval (1, 0)).map _ fun _ _ h => h
    rw [htimes] at hspaced
    exact absurd hspaced (by decide)

end CacheRun

end MoonProto
