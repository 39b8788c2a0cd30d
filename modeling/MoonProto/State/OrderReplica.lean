import MoonProto.State.Orders

/-!
# The replica follows the server

The server's history of an order is a state per revision. Its images and patches tell the
truth about one revision and reach the client in any order, repeatedly or not at all.
`Tracks` is what a mirror knows behind any such messages: every section seen is true at its
revision, the expected checksum is that of the highest revision, and no section is older
than a message that carried it. From this an exact mirror holds a true state, and once no
patch is missing the mirror is exact at the last revision.

The checksum has 32 bits, so it can only be injective on some states; what is needed is
that it tells apart the states that occur in the run.
-/

namespace MoonProto

open List Option OrderMirror

open OrderMirror (Message)

/-- What the server holds for an order, by revision. -/
structure OrderHistory where
  desc : OrderDescription
  state : Nat → CanonicalOrderState

namespace OrderHistory

def sections (h : OrderHistory) (revision : Nat) (i : OrderSection) : Bytes :=
  (h.state revision).sectionBytes i

/-- A message that the server sends for this history: the bytes of the sections it carries
and its checksum are those of its revision, it carries at least one section, and it
carries every section that changed with its revision. -/
structure Genuine (env : OrderEnv) (h : OrderHistory) (msg : Message) : Prop where
  desc : ∀ d, msg.desc = some d → d = h.desc
  hash : msg.expectedHash = stateHash env msg.revision h.desc (h.state msg.revision)
  sections : ∀ i, msg.carries i = true → msg.incoming.sectionBytes i = h.sections msg.revision i
  nonempty : ∃ i, msg.carries i = true
  changes : ∀ i, h.sections msg.revision i ≠ h.sections (msg.revision - 1) i → msg.carries i = true

theorem genuine_image (env : OrderEnv) (h : OrderHistory) (revision mask : Nat) : Genuine env h
      (OrderChannel.imageMessage env revision h.desc mask (h.state revision)) where
  desc := fun _ hd => (Option.some.inj hd).symm
  hash := rfl
  sections := fun _ _ => rfl
  nonempty := ⟨0, rfl⟩
  changes := fun _ _ => rfl

/-- The patch of a revision that carries the sections of `mask`. -/
def patch (env : OrderEnv) (h : OrderHistory) (revision mask : Nat) : Message :=
  ⟨revision, stateHash env revision h.desc (h.state revision), mask, h.state revision, none⟩

theorem genuine_patch {env : OrderEnv} {h : OrderHistory} {revision mask : Nat}
    (hsome : ∃ i : OrderSection, mask.testBit i = true)
    (hchanges : ∀ i, h.sections revision i ≠ h.sections (revision - 1) i → mask.testBit i = true) :
    Genuine env h (patch env h revision mask) where
  desc := nofun
  hash := rfl
  sections := fun _ _ => rfl
  nonempty := hsome
  changes := hchanges

/-- What a mirror knows behind the messages `msgs`. -/
structure Tracks (env : OrderEnv) (h : OrderHistory) (msgs : List Message) (m : OrderMirror) :
    Prop where
  desc : m.desc = h.desc
  faithful : m.replica.Faithful h.sections
  latest : m.replicaRev ≠ 0 → (∃ msg ∈ msgs, msg.revision = m.replicaRev) ∧
    m.expectedHash = stateHash env m.replicaRev h.desc (h.state m.replicaRev)
  covers : ∀ msg ∈ msgs, ∀ i, msg.carries i = true → msg.revision ≤ m.seenRev i
  settled : m.Settled env

variable {env : OrderEnv} {h : OrderHistory} {msgs : List Message} {msg : Message}
  {m : OrderMirror}

theorem tracks_new (env : OrderEnv) (h : OrderHistory) :
    Tracks env h [] (new h.desc) where
  desc := rfl
  faithful := fun _ hseen => absurd rfl hseen
  latest := fun hrev => absurd (replicaRev_eq_of_forall fun _ => rfl) hrev
  covers := nofun
  settled := fun _ hrev => absurd (replicaRev_eq_of_forall fun _ => rfl) hrev

/-- A genuine message with a higher revision makes it the revision of the replica. -/
theorem received_replicaRev_of_lt (hg : Genuine env h msg) (hlt : m.replicaRev < msg.revision) :
    (m.received msg).replicaRev = msg.revision := by
  obtain ⟨i, hi⟩ := hg.nonempty
  have happlied : m.appliedMask msg ≠ 0 := by
    rw [Ne, appliedMask_eq_zero_iff]
    intro hnone
    have hnew : m.replica.newer msg.versioned i = true :=
      Versioned.Replica.newer_iff.mpr ⟨hi, Nat.lt_of_le_of_lt (m.seenRev_le_replicaRev i) hlt⟩
    rw [hnone i] at hnew
    cases hnew
  rw [received_replicaRev, if_pos happlied, max_eq_right hlt.le]

theorem received_replicaRev_of_le (hle : msg.revision ≤ m.replicaRev) :
    (m.received msg).replicaRev = m.replicaRev := by
  rw [received_replicaRev, max_eq_left hle, ite_self]

/-- The expected checksum stays that of the highest revision. -/
theorem Tracks.latest_received (ht : Tracks env h msgs m) (hg : Genuine env h msg)
    (hrev : (m.received msg).replicaRev ≠ 0) :
    (∃ msg' ∈ msgs ++ [msg], msg'.revision = (m.received msg).replicaRev) ∧
      (m.received msg).expectedHash =
        stateHash env (m.received msg).replicaRev h.desc (h.state (m.received msg).replicaRev) := by
  rw [received_expectedHash]
  by_cases hlt : m.replicaRev < msg.revision
  · rw [received_replicaRev_of_lt hg hlt, if_pos hlt]
    exact ⟨⟨msg, mem_append_right _ mem_cons_self, rfl⟩, hg.hash⟩
  · rw [received_replicaRev_of_le (Nat.le_of_not_lt hlt)] at hrev ⊢
    rw [if_neg hlt]
    obtain ⟨⟨msg', hmem, heq⟩, hhash⟩ := ht.latest hrev
    exact ⟨⟨msg', mem_append_left _ hmem, heq⟩, hhash⟩

/-- The checksum tells `state` from the true state of every revision delivered. -/
def Distinguished (env : OrderEnv) (h : OrderHistory) (msgs : List Message)
    (state : CanonicalOrderState) : Prop :=
  ∀ msg ∈ msgs, stateHash env msg.revision h.desc state =
    stateHash env msg.revision h.desc (h.state msg.revision) → state = h.state msg.revision

/-- **One message.** A merge keeps what the mirror knows, whatever the message's revision. -/
theorem Tracks.merge (ht : Tracks env h msgs m) (hg : Genuine env h msg)
    (hdist : Distinguished env h (msgs ++ [msg]) (m.received msg).state) :
    Tracks env h (msgs ++ [msg]) (m.merge env msg).mirror := by
  have hfaithful : (m.received msg).replica.Faithful h.sections := by
    rw [received_replica]
    exact ht.faithful.receive hg.sections
  have hcovers : ∀ msg' ∈ msgs ++ [msg], ∀ i, msg'.carries i = true →
      msg'.revision ≤ (m.received msg).seenRev i := by
    intro msg' hmem i hi
    have hseen : (m.received msg).seenRev i = (m.replica.receive msg.versioned).seen i :=
      congrFun (congrArg Versioned.Replica.seen (received_replica m msg)) i
    rw [hseen]
    rcases mem_append.mp hmem with hold | hnew
    · exact (ht.covers msg' hold i hi).trans (Versioned.Replica.seen_le_receive m.replica _ i)
    · rw [mem_singleton.mp hnew] at hi ⊢
      exact Versioned.Replica.version_le_receive (m := msg.versioned) hi
  refine ⟨?_, ?_, ?_, ?_, merge_settled env m msg⟩
  · rw [merge_desc]
    exact ht.desc
  · rcases merge_eq env m msg with ⟨hproven, heq⟩ | ⟨-, heq⟩
    · -- promoted: the checksum says that the state is the true one
      rw [heq]
      by_cases hrev : (m.received msg).replicaRev = 0
      · intro i hseen
        exact absurd hrev hseen
      · obtain ⟨⟨msg', hmem, hmsg'⟩, hhash⟩ := ht.latest_received hg hrev
        have hstate : (m.received msg).state = h.state (m.received msg).replicaRev := by
          rw [← hmsg']
          apply hdist msg' hmem
          rw [hmsg', ← hhash, ← ht.desc, ← received_desc m msg]
          exact hproven
        rw [promote_replica]
        exact Versioned.Replica.faithful_raise fun i => congrArg (·.sectionBytes i) hstate
    · rw [heq]
      exact hfaithful
  · rw [merge_replicaRev, merge_expectedHash]
    exact ht.latest_received hg
  · intro msg' hmem i hi
    have hle := hcovers msg' hmem i hi
    rcases merge_eq env m msg with ⟨-, heq⟩ | ⟨-, heq⟩
    · rw [heq]
      exact hle.trans ((m.received msg).seenRev_le_replicaRev i)
    · rw [heq]
      exact hle

/-- **Exact means true**: an exact mirror holds the server's state of its revision. -/
theorem Tracks.state_of_isExact (ht : Tracks env h msgs m) (hexact : m.isExact = true) :
    m.state = h.state m.replicaRev := by
  obtain ⟨hrev, hseen⟩ := (isExact_iff m).mp hexact
  apply CanonicalOrderState.ext_sections
  intro i
  have hi := ht.faithful i
  change m.seenRev i ≠ 0 → m.state.sectionBytes i = h.sections (m.seenRev i) i at hi
  rw [hseen i] at hi
  exact hi hrev

/-- The messages hold an image of revision `first` and a patch of every revision up to
`last`, and nothing newer. -/
structure Complete (msgs : List Message) (first last : Nat) : Prop where
  image : ∃ msg ∈ msgs, msg.desc.isSome = true ∧ msg.revision = first
  patches : ∀ r, first < r → r ≤ last → ∃ msg ∈ msgs, msg.desc = none ∧ msg.revision = r
  newest : ∀ msg ∈ msgs, msg.revision ≤ last

theorem Tracks.replicaRev_le (ht : Tracks env h msgs m) {first last : Nat}
    (hc : Complete msgs first last) : m.replicaRev ≤ last := by
  by_cases hrev : m.replicaRev = 0
  · rw [hrev]
    exact Nat.zero_le last
  · obtain ⟨⟨msg, hmem, heq⟩, -⟩ := ht.latest hrev
    rw [← heq]
    exact hc.newest msg hmem

/-- **Convergence.** Behind a complete set of messages, in whatever order they came, the
mirror is exact at the last revision. -/
theorem Tracks.converged (ht : Tracks env h msgs m) {first last : Nat} (hpos : 0 < first)
    (hg : ∀ msg ∈ msgs, Genuine env h msg) (hc : Complete msgs first last) :
    m.isExact = true ∧ m.replicaRev = last ∧ m.state = h.state last := by
  obtain ⟨image, himage, hsome, hfirst⟩ := hc.image
  have hfirst_le : ∀ i, first ≤ m.seenRev i := by
    intro i
    rw [← hfirst]
    apply ht.covers image himage
    rw [Message.carries, hsome, Bool.true_or]
  have hle_last : ∀ i, m.seenRev i ≤ last := fun i =>
    (m.seenRev_le_replicaRev i).trans (ht.replicaRev_le hc)
  have hstate : m.state = h.state last := by
    apply CanonicalOrderState.ext_sections
    intro i
    -- a change of the section would have come with a patch that carries it
    apply ht.faithful.eq_of_covered hpos (hfirst_le i) (hle_last i)
    intro r hr hrl hchange
    obtain ⟨patch, hpatch, -, rfl⟩ := hc.patches r hr hrl
    exact ht.covers patch hpatch i ((hg patch hpatch).changes i hchange)
  have hrev : m.replicaRev = last := by
    apply le_antisymm (ht.replicaRev_le hc)
    rcases Nat.eq_or_lt_of_le (hfirst ▸ hc.newest image himage) with heq | hlt
    · rw [← heq]
      exact (hfirst_le 0).trans (m.seenRev_le_replicaRev 0)
    · obtain ⟨patch, hpatch, -, heq⟩ := hc.patches last hlt le_rfl
      obtain ⟨i, hi⟩ := (hg patch hpatch).nonempty
      rw [← heq]
      exact (ht.covers patch hpatch i hi).trans (m.seenRev_le_replicaRev i)
  have hne : m.replicaRev ≠ 0 :=
    Nat.ne_of_gt (Nat.lt_of_lt_of_le hpos ((hfirst_le 0).trans (m.seenRev_le_replicaRev 0)))
  have hproven : m.Proven env := by
    rw [OrderMirror.Proven, (ht.latest hne).2, ht.desc, hrev, hstate]
  exact ⟨ht.settled hproven hne, hrev, hstate⟩

end OrderHistory

/-! ## Deliveries to the order state -/

namespace OrderChannel

/-- One call of `merge_state`, for any order. -/
structure Delivery where
  uid : Nat
  msg : Message
  marketExists : Bytes → Bool
  nowMs : Int

def deliver (env : OrderEnv) (c : OrderChannel) (d : Delivery) : OrderChannel :=
  c.mergeState env d.uid d.msg d.marketExists d.nowMs

def deliverAll (env : OrderEnv) (c : OrderChannel) (ds : List Delivery) : OrderChannel :=
  ds.foldl (deliver env) c

theorem deliverAll_snoc (env : OrderEnv) (c : OrderChannel) (ds : List Delivery) (d : Delivery) :
    deliverAll env c (ds ++ [d]) = deliver env (deliverAll env c ds) d := by
  unfold deliverAll
  rw [foldl_append]
  rfl

/-- The messages delivered for one order. -/
def messagesFor (uid : Nat) (ds : List Delivery) : List Message :=
  (ds.filter (·.uid == uid)).map (·.msg)

theorem messagesFor_snoc (uid : Nat) (ds : List Delivery) (d : Delivery) :
    messagesFor uid (ds ++ [d]) = messagesFor uid ds ++ if d.uid = uid then [d.msg] else [] := by
  unfold messagesFor
  rw [filter_append, map_append]
  by_cases h : d.uid = uid <;> simp [h]

/-- The states of an order that occur in a run: those of the server at the revisions
delivered, and those of the replica at any moment. -/
inductive Occurs (env : OrderEnv) (h : OrderHistory) (c : OrderChannel) (uid : Nat)
    (ds : List Delivery) : CanonicalOrderState → Prop
  | server (msg : Message) (hmem : msg ∈ messagesFor uid ds) :
      Occurs env h c uid ds (h.state msg.revision)
  | replica (past : List Delivery) (hpast : past <+: ds) (m : OrderMirror)
      (hm : (deliverAll env c past).mirrors.lookup uid = some m) : Occurs env h c uid ds m.state

/-- The checksum is injective on the states that occur, at the revisions that occur. -/
def HashInjective (env : OrderEnv) (h : OrderHistory) (c : OrderChannel) (uid : Nat)
    (ds : List Delivery) : Prop :=
  ∀ msg ∈ messagesFor uid ds, ∀ x y, Occurs env h c uid ds x → Occurs env h c uid ds y →
    stateHash env msg.revision h.desc x = stateHash env msg.revision h.desc y → x = y

variable {ds ds' : List Delivery}

theorem mem_messagesFor_mono {uid : Nat} (hds : ds <+: ds') {msg : Message}
    (h : msg ∈ messagesFor uid ds) : msg ∈ messagesFor uid ds' := by
  unfold messagesFor at h ⊢
  exact ((hds.sublist.filter _).map _).subset h

theorem Occurs.mono {env : OrderEnv} {h : OrderHistory} {c : OrderChannel} {uid : Nat}
    (hds : ds <+: ds') {x : CanonicalOrderState}
    (hx : Occurs env h c uid ds x) : Occurs env h c uid ds' x := by
  cases hx with
  | server msg hmem => exact .server msg (mem_messagesFor_mono hds hmem)
  | replica past hpast m hm => exact .replica past (hpast.trans hds) m hm

theorem HashInjective.mono {env : OrderEnv} {h : OrderHistory} {c : OrderChannel} {uid : Nat}
    (hds : ds <+: ds') (hinj : HashInjective env h c uid ds') :
    HashInjective env h c uid ds :=
  fun msg hmem x y hx hy =>
    hinj msg (mem_messagesFor_mono hds hmem) x y (hx.mono hds) (hy.mono hds)

section Run

variable {env : OrderEnv} {h : OrderHistory} {c : OrderChannel} {uid : Nat}
  {first : Delivery} {rest : List Delivery}

theorem HashInjective.distinguished {ds : List Delivery} (hinj : HashInjective env h c uid ds)
    {x : CanonicalOrderState} (hx : Occurs env h c uid ds x) :
    h.Distinguished env (messagesFor uid ds) x :=
  fun msg hmem => hinj msg hmem x _ hx (.server msg hmem)

/-- Behind the first image and any deliveries, the mirror is there and tracks the history. -/
theorem tracks_deliverAll (hunknown : c.mirrors.lookup uid = none)
    (htomb : c.isTombstoned uid = false) (huid : first.uid = uid)
    (himage : first.msg.desc.isSome = true)
    (hgenuine : ∀ msg ∈ messagesFor uid (first :: rest), h.Genuine env msg)
    (hinj : HashInjective env h c uid (first :: rest)) :
    ∃ m, (deliverAll env c (first :: rest)).mirrors.lookup uid = some m ∧
      h.Tracks env (messagesFor uid (first :: rest)) m := by
  induction rest using reverseRecOn with
  | nil =>
    obtain ⟨desc, hdesc⟩ := isSome_iff_exists.mp himage
    have hmsgs : messagesFor uid [first] = [] ++ [first.msg] := by
      simp [messagesFor, huid]
    have hg : h.Genuine env first.msg := by
      apply hgenuine
      rw [hmsgs]
      exact mem_append_right _ mem_cons_self
    have hlookup : (deliverAll env c [first]).mirrors.lookup uid =
        some ((OrderMirror.new h.desc).merge env first.msg).mirror := by
      rw [← hg.desc desc hdesc, ← huid]
      exact lookup_mergeState_of_none env (huid ▸ hunknown) (huid ▸ htomb) hdesc _ _
    refine ⟨_, hlookup, ?_⟩
    rw [hmsgs]
    refine (OrderHistory.tracks_new env h).merge hg ?_
    rw [← hmsgs, ← merge_mirror_state env]
    exact hinj.distinguished (.replica [first] prefix_rfl _ hlookup)
  | append_singleton rest d ih =>
    have hpast : first :: rest <+: first :: (rest ++ [d]) :=
      ⟨[d], rfl⟩
    obtain ⟨m, hm, ht⟩ := ih
      (fun msg hmem => hgenuine msg (mem_messagesFor_mono hpast hmem)) (hinj.mono hpast)
    rw [← cons_append] at hgenuine hinj ⊢
    rw [messagesFor_snoc] at hgenuine ⊢
    rw [deliverAll_snoc]
    by_cases hd : d.uid = uid
    · rw [if_pos hd] at hgenuine ⊢
      have hg : h.Genuine env d.msg :=
        hgenuine d.msg (mem_append_right _ mem_cons_self)
      have hlookup : (deliver env (deliverAll env c (first :: rest)) d).mirrors.lookup uid =
          some (m.merge env d.msg).mirror := by
        rw [← hd]
        refine lookup_mergeState_of_some env (hd ▸ hm) (fun desc hdesc => ?_) _ _
        rw [ht.desc]
        exact hg.desc desc hdesc
      refine ⟨_, hlookup, ht.merge hg ?_⟩
      have hdist := hinj.distinguished
        (.replica ((first :: rest) ++ [d]) prefix_rfl _ (deliverAll_snoc env c _ d ▸ hlookup))
      rw [messagesFor_snoc, if_pos hd, merge_mirror_state] at hdist
      exact hdist
    · rw [if_neg hd, append_nil]
      refine ⟨m, ?_, ht⟩
      rw [deliver, lookup_mergeState_of_ne env _ (Ne.symm hd)]
      exact hm

/-- **The replica is exact only when it is true, and it converges.** From the first image
of an order on, whatever is delivered to any order, at every moment the mirror of this
order is exact only with the server's state of its revision; and as soon as an image and
every later patch up to the newest revision have come, in any order, it is exact there. -/
theorem replica_converges (hunknown : c.mirrors.lookup uid = none)
    (htomb : c.isTombstoned uid = false) (huid : first.uid = uid)
    (himage : first.msg.desc.isSome = true)
    (hgenuine : ∀ msg ∈ messagesFor uid (first :: rest), h.Genuine env msg)
    (hinj : HashInjective env h c uid (first :: rest)) :
    ∀ past, past <+: rest → ∃ m, (deliverAll env c (first :: past)).mirrors.lookup uid = some m ∧
      (m.isExact = true → m.state = h.state m.replicaRev) ∧
      ∀ initial last, 0 < initial →
        OrderHistory.Complete (messagesFor uid (first :: past)) initial last →
        m.isExact = true ∧ m.replicaRev = last ∧ m.state = h.state last := by
  intro past hpast
  have hpre : first :: past <+: first :: rest := (prefix_cons_inj first).mpr hpast
  have hg : ∀ msg ∈ messagesFor uid (first :: past), h.Genuine env msg :=
    fun msg hmem => hgenuine msg (mem_messagesFor_mono hpre hmem)
  obtain ⟨m, hm, ht⟩ := tracks_deliverAll hunknown htomb huid himage hg (hinj.mono hpre)
  exact ⟨m, hm, ht.state_of_isExact, fun initial last hpos hc => ht.converged hpos hg hc⟩

end Run

/-! ### A run out of order -/

/-- The description of an order of the market `BTC`. -/
def btcDescription : OrderDescription :=
  ⟨3, [66, 84, 67] ++ List.replicate 61 0, 0, by decide, by decide⟩

/-- A history of three revisions: the second sets the sell reason, the third the VStop. -/
def threeRevisions : OrderHistory where
  desc := btcDescription
  state
    | 0 | 1 => default
    | 2 => (default : CanonicalOrderState).setByte 9 2
    | _ + 3 => ((default : CanonicalOrderState).setByte 9 2).setByte 315 1

/-- The environment with the real checksum. -/
def castagnoliEnv : OrderEnv := .words OrderEnv.castagnoli

/-- Deliver a message of order 7, whose market is known. -/
def deliveryTo7 (msg : Message) : Delivery := ⟨7, msg, fun _ => true, 1000⟩

def firstImage : Delivery :=
  deliveryTo7 (imageMessage castagnoliEnv 1 threeRevisions.desc 0x1fff (threeRevisions.state 1))

def latePatches : List Delivery :=
  [threeRevisions.patch castagnoliEnv 3 (2 ^ 11),
    threeRevisions.patch castagnoliEnv 2 2].map deliveryTo7

/-- The image of revision 1, then the patches of revisions 3 and 2. -/
def reordered : List Delivery := firstImage :: latePatches

/-- The states that occur: the server's three, and the third patch on top of the image. -/
def reorderedStates : List CanonicalOrderState :=
  [threeRevisions.state 1, threeRevisions.state 2, threeRevisions.state 3,
    (default : CanonicalOrderState).setByte 315 1]

/-- The checksum is injective if it tells apart the states of a list that has all that occur. -/
theorem hashInjective_of (states : List CanonicalOrderState)
    (hserver : ∀ msg ∈ messagesFor 7 ds, threeRevisions.state msg.revision ∈ states)
    (hreplica : ∀ past ∈ ds.inits,
      ∀ m ∈ ((deliverAll castagnoliEnv (new 0) past).mirrors.lookup 7).toList, m.state ∈ states)
    (hnodup : ∀ msg ∈ messagesFor 7 ds,
      (states.map (stateHash castagnoliEnv msg.revision threeRevisions.desc)).Nodup) :
    HashInjective castagnoliEnv threeRevisions (new 0) 7 ds := by
  have hall : ∀ x, Occurs castagnoliEnv threeRevisions (new 0) 7 ds x → x ∈ states := by
    intro x hx
    cases hx with
    | server msg hmem => exact hserver msg hmem
    | replica past hpast m hm =>
      exact hreplica past ((mem_inits _ _).mpr hpast) m (mem_toList.mpr hm)
  intro msg hmem x y hx hy heq
  exact inj_on_of_nodup_map (hnodup msg hmem) (hall x hx) (hall y hy) heq

section Run

-- the checksum folds over some four hundred bytes
set_option maxRecDepth 10000

theorem hashInjective_reordered :
    HashInjective castagnoliEnv threeRevisions (new 0) 7 reordered :=
  hashInjective_of reorderedStates (by decide +kernel) (by decide +kernel)
    (by decide +kernel)

theorem genuine_reordered : ∀ msg ∈ messagesFor 7 reordered,
    threeRevisions.Genuine castagnoliEnv msg := by
  intro msg hmem
  rcases hmem with _ | ⟨_, _ | ⟨_, _ | ⟨_, hmem⟩⟩⟩
  · exact OrderHistory.genuine_image _ _ _ _
  · exact OrderHistory.genuine_patch ⟨11, by decide⟩ (by decide +kernel)
  · exact OrderHistory.genuine_patch ⟨1, by decide⟩ (by decide +kernel)
  · cases hmem

theorem replica_converges_reordered :
    ∃ m, (deliverAll castagnoliEnv (new 0) (firstImage :: latePatches)).mirrors.lookup 7 = some m ∧
      m.isExact = true ∧ m.replicaRev = 3 ∧ m.state = threeRevisions.state 3 := by
  obtain ⟨m, hm, -, hconverged⟩ := @replica_converges castagnoliEnv threeRevisions (new 0) 7
    firstImage latePatches rfl (by decide +kernel) rfl rfl genuine_reordered
    hashInjective_reordered latePatches prefix_rfl
  refine ⟨m, hm, hconverged 1 3 Nat.one_pos ⟨?_, ?_, ?_⟩⟩
  · decide +kernel
  · intro r hr hr3
    have hall : ∀ r ∈ [2, 3], ∃ msg ∈ messagesFor 7 (firstImage :: latePatches),
        msg.desc = none ∧ msg.revision = r := by
      decide +kernel
    exact hall r (by simp; omega)
  · decide +kernel

/-- Revision 0 marks a section that was not seen: an image of revision 0 is complete by
itself, but leaves the mirror empty and not exact. -/
theorem revision_zero_never_exact : ∃ d : Delivery, threeRevisions.Genuine castagnoliEnv d.msg ∧
      HashInjective castagnoliEnv threeRevisions (new 0) 7 [d] ∧
      OrderHistory.Complete (messagesFor 7 [d]) 0 0 ∧
      ((deliverAll castagnoliEnv (new 0) [d]).mirrors.lookup 7).map isExact =
        some false := by
  refine ⟨deliveryTo7
    (imageMessage castagnoliEnv 0 threeRevisions.desc 0x1fff (threeRevisions.state 0)),
    OrderHistory.genuine_image _ _ _ _, hashInjective_of [default] (by decide +kernel)
      (by decide +kernel) (by decide +kernel), ⟨?_, ?_, ?_⟩, ?_⟩
  · exact ⟨_, mem_cons_self, rfl, rfl⟩
  · exact fun r hr hr0 => absurd hr0 (Nat.not_le_of_lt hr)
  · intro msg hmem
    rw [mem_singleton.mp hmem]
    exact le_rfl
  · decide +kernel

end Run

end OrderChannel

end MoonProto
