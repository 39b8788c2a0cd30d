import MoonProto.Lib.Versioned
import MoonProto.State.MarketHandles

/-!
# Balance updates in any order

After a full snapshot with epoch `e` come incremental updates with the epochs `e + 1` to
`e + n`, `n` at most 1000, in any order, some lost and some repeated. Every market gates
its rows by its own epoch, so its balance fields are those of the newest update that
carried a row for it: the markets refine a replica of registers with versions. The account
totals have no such gate. They are those of the update delivered last, which is the newest
one only if no older one with totals overtook it.
-/

namespace MoonProto

open MarketsState List Option Bool

variable {N F : Type} [DecidableEq N]

/-! ## Rows -/

namespace BalanceUpdate

/-- The first row for a market. -/
def row (upd : BalanceUpdate N F) (n : N) : Option (BalanceItem N F) :=
  upd.items.find? fun item => item.marketName = n

/-- The last row for a market. -/
def lastRow (upd : BalanceUpdate N F) (n : N) : Option (BalanceItem N F) :=
  upd.items.reverse.find? fun item => item.marketName = n

end BalanceUpdate

namespace MarketsState

variable (env : MarketEnv N F) {s : MarketsState N F} {handle : MarketHandle} {m : Market N F}

omit [DecidableEq N] in
theorem Handled.entry (h : s.Handled) (hmem : handle ∈ s.markets)
    (hm : s.objects[handle]? = some m) : s.handlesByName m.bnMarketName = some handle := by
  obtain ⟨n, hname, hentry⟩ := h.table.complete handle hmem
  unfold nameOf at hname
  rw [hm, map_some, some_inj] at hname
  rw [hname]
  exact hentry

omit [DecidableEq N] in
theorem Handled.other (h : s.Handled) (hm : s.objects[handle]? = some m) {n : N}
    {handle' : MarketHandle} (hentry : s.handlesByName n = some handle')
    (hne : n ≠ m.bnMarketName) : handle' ≠ handle := by
  rintro rfl
  obtain ⟨-, hname⟩ := h.table.sound n _ hentry
  unfold nameOf at hname
  rw [hm, map_some, some_inj] at hname
  exact hne hname.symm

omit [DecidableEq N] in
theorem objects_withMut_self {f : Market N F → Market N F} (hm : s.objects[handle]? = some m) :
    (s.withMut handle f).objects[handle]? = some (f m) := by
  simp [withMut, hm]

omit [DecidableEq N] in
theorem objects_withMut_other {f : Market N F → Market N F} {handle' : MarketHandle}
    (hne : handle' ≠ handle) : (s.withMut handle' f).objects[handle]? = s.objects[handle]? := by
  simp [withMut, hne]

/-- A market after the rows of an incremental update: the first row for it is written if
the market's epoch lets it, and a second one never is. -/
theorem applyIncrementItems_object (upd : BalanceUpdate N F) :
    ∀ (items : List (BalanceItem N F)) {s : MarketsState N F} {m : Market N F}, s.Handled →
    handle ∈ s.markets → s.objects[handle]? = some m →
    (applyIncrementItems env upd s items).1.objects[handle]? =
      some (match items.find? fun item => item.marketName = m.bnMarketName with
        | some item =>
          if epochIsOk m.lastBalanceEpoch upd.epoch then
            applyBalanceItem env item upd.epoch s.eps m
          else m
        | none => m)
  | [], s, m, _, _, hm => hm
  | item :: items, s, m, h, hmem, hm => by
    have hentry := h.entry hmem hm
    unfold applyIncrementItems
    by_cases hname : item.marketName = m.bnMarketName
    · rw [find?_cons_of_pos (by simpa using hname), hname, hentry]
      dsimp only
      rw [hm, any_some]
      cases hok : epochIsOk m.lastBalanceEpoch upd.epoch with
      | false =>
        have hrest := applyIncrementItems_object upd items h hmem hm
        simp only [hok, false_eq_true, if_false] at hrest ⊢
        rw [hrest]
        cases items.find? fun item => item.marketName = m.bnMarketName <;> rfl
      | true =>
        have hw := withMut_rewrites (π := Market.bnMarketName)
          (f := applyBalanceItem env item upd.epoch s.eps) (fun _ => rfl) s handle
        have hrest := applyIncrementItems_object upd items (h.rewrites hw) hmem
          (objects_withMut_self hm)
        simp only [if_true] at hrest ⊢
        -- the market now has this very epoch, which lets no further row in
        have hsame : epochIsOk (applyBalanceItem env item upd.epoch s.eps m).lastBalanceEpoch
            upd.epoch = false := if_pos rfl
        rw [hrest]
        cases items.find? fun item' =>
          item'.marketName = (applyBalanceItem env item upd.epoch s.eps m).bnMarketName <;>
            simp [hsame]
    · rw [find?_cons_of_neg (by simpa using hname)]
      cases hother : s.handlesByName item.marketName with
      | none => exact applyIncrementItems_object upd items h hmem hm
      | some handle' =>
        have hne := h.other hm hother hname
        have hw := withMut_rewrites (π := Market.bnMarketName)
          (f := applyBalanceItem env item upd.epoch s.eps) (fun _ => rfl) s handle'
        by_cases hok : (s.objects[handle']?).any fun m => epochIsOk m.lastBalanceEpoch upd.epoch
        · simp only [hok, if_true]
          exact applyIncrementItems_object upd items (h.rewrites hw) hmem
            ((objects_withMut_other hne).trans hm)
        · simp only [hok]
          exact applyIncrementItems_object upd items h hmem hm

theorem applySnapshotItems_object (upd : BalanceUpdate N F) :
    ∀ (items : List (BalanceItem N F)) {s : MarketsState N F} {m : Market N F}, s.Handled →
    handle ∈ s.markets → s.objects[handle]? = some m →
    ∃ m', (applySnapshotItems env upd s items).1.objects[handle]? = some m' ∧
      m'.bnMarketName = m.bnMarketName ∧
      ((items.reverse.find? fun item => item.marketName = m.bnMarketName) = none → m' = m) ∧
      ∀ item, (items.reverse.find? fun item => item.marketName = m.bnMarketName) = some item →
        m'.position = item.position ∧ m'.lastBalanceEpoch = upd.epoch
  | [], s, m, _, _, hm => ⟨m, hm, rfl, fun _ => rfl, fun item hitem => (nomatch hitem)⟩
  | item :: items, s, m, h, hmem, hm => by
    have hentry := h.entry hmem hm
    unfold applySnapshotItems
    simp only [reverse_cons, find?_append]
    by_cases hname : item.marketName = m.bnMarketName
    · rw [hname, hentry]
      have hw := withMut_rewrites (π := Market.bnMarketName)
        (f := applyBalanceItem env item upd.epoch s.eps) (fun _ => rfl) s handle
      obtain ⟨m', hm', hname', hsame, hrow⟩ := applySnapshotItems_object upd items
        (h.rewrites hw) hmem (objects_withMut_self hm)
      refine ⟨m', hm', hname', ?_, ?_⟩
      · intro hnone
        simp [hname] at hnone
      · intro item' hitem'
        cases hrest : items.reverse.find? fun item => item.marketName = m.bnMarketName with
        | some last =>
          rw [hrest, some_or, some_inj] at hitem'
          rw [← hitem']
          exact hrow last hrest
        | none =>
          rw [hrest, none_or] at hitem'
          simp only [hname, decide_true, find?_cons_of_pos, Option.some.injEq] at hitem'
          rw [hsame hrest, ← hitem']
          exact ⟨rfl, rfl⟩
    · have hskip : [item].find? (fun item => item.marketName = m.bnMarketName) = none := by
        simp [hname]
      rw [hskip, or_none]
      cases hother : s.handlesByName item.marketName with
      | none => exact applySnapshotItems_object upd items h hmem hm
      | some handle' =>
        have hw := withMut_rewrites (π := Market.bnMarketName)
          (f := applyBalanceItem env item upd.epoch s.eps) (fun _ => rfl) s handle'
        exact applySnapshotItems_object upd items (h.rewrites hw) hmem
          ((objects_withMut_other (h.other hm hother hname)).trans hm)

end MarketsState

/-! ## The markets as versioned registers -/

/-- Epochs at most 1000 steps from a common one compare like the steps. -/
theorem epochIsOk_add (e : UInt16) {k i : Nat} (hk : k ≤ 1000) (hi : i ≤ 1000) :
    epochIsOk (e + UInt16.ofNat k) (e + UInt16.ofNat i) = decide (k < i) := by
  have hsum : ∀ j : Nat, e + UInt16.ofNat j = UInt16.ofNat (e.toNat + j) := by
    intro j
    rw [UInt16.ofNat_add, UInt16.ofNat_toNat]
  rw [hsum, hsum, epochIsOk_ofNat (by omega) (by omega), decide_eq_decide]
  omega

/-- Every market has the value of its register, and the epoch of its version. -/
def MarketsState.Mirrors (e : UInt16) (s : MarketsState N F)
    (r : Versioned.Replica N (BalancePosition F)) : Prop :=
  ∀ handle ∈ s.markets, ∀ m, s.objects[handle]? = some m →
    m.lastBalanceEpoch = e + UInt16.ofNat (r.seen m.bnMarketName) ∧
    m.position = r.value m.bnMarketName ∧ r.seen m.bnMarketName ≤ 1000

namespace BalanceUpdate

/-- The registers an update carries. -/
def message (zero : F) (version : Nat) (upd : BalanceUpdate N F) :
    Versioned.Message N (BalancePosition F) where
  version := version
  carries n := (upd.row n).isSome
  value n := ((upd.row n).map (·.position)).getD (.missing zero)

/-- The registers after a full snapshot. -/
def replica (zero : F) (upd : BalanceUpdate N F) : Versioned.Replica N (BalancePosition F) where
  value n := ((upd.lastRow n).map (·.position)).getD (.missing zero)
  seen _ := 0

end BalanceUpdate

namespace MarketsState

variable (env : MarketEnv N F) {s : MarketsState N F}

theorem Mirrors.increment {e : UInt16} {r : Versioned.Replica N (BalancePosition F)}
    (h : s.Mirrors e r) (hh : s.Handled) {upd : BalanceUpdate N F} {i : Nat} (hi : i ≤ 1000)
    (hepoch : upd.epoch = e + UInt16.ofNat i) :
    (applyIncrementItems env upd s upd.items).1.Mirrors e (r.receive (upd.message env.zero i)) := by
  obtain ⟨objects, hstate, hsame⟩ := applyIncrementItems_rewrites (π := Market.bnMarketName) env
    (fun _ _ _ _ => rfl) upd upd.items s
  intro handle hmem m' hm'
  have hmem' : handle ∈ s.markets := by
    rw [hstate] at hmem
    exact hmem
  obtain ⟨n, hname, -⟩ := hh.table.complete handle hmem'
  obtain ⟨m, hm, -⟩ := map_eq_some_iff.mp hname
  obtain ⟨hlast, hposition, hbound⟩ := h handle hmem' m hm
  have hafter := applyIncrementItems_object env upd upd.items hh hmem' hm
  rw [hm', some_inj] at hafter
  have hnewer : r.newer (upd.message env.zero i) m.bnMarketName =
      ((upd.row m.bnMarketName).isSome && decide (r.seen m.bnMarketName < i)) := rfl
  rw [hlast, hepoch, epochIsOk_add e hbound hi] at hafter
  have hrow : upd.items.find? (fun item => item.marketName = m.bnMarketName) =
    upd.row m.bnMarketName := rfl
  rw [hrow] at hafter
  cases hitem : upd.row m.bnMarketName with
  | none =>
    rw [hitem] at hafter hnewer
    subst hafter
    simp only [Versioned.Replica.receive, hnewer, isSome_none, Bool.false_and,
      false_eq_true, if_false]
    exact ⟨hlast, hposition, hbound⟩
  | some item =>
    rw [hitem, isSome_some, Bool.true_and] at hnewer
    rw [hitem] at hafter
    by_cases hlt : r.seen m.bnMarketName < i
    · simp only [hlt, decide_true, if_true] at hafter hnewer
      subst hafter
      have hnewer' : r.newer (upd.message env.zero i)
          (applyBalanceItem env item (e + UInt16.ofNat i) s.eps m).bnMarketName = true := hnewer
      simp only [Versioned.Replica.receive, hnewer', if_true]
      refine ⟨rfl, ?_, hi⟩
      show item.position = ((upd.row m.bnMarketName).map (·.position)).getD _
      rw [hitem]
      rfl
    · simp only [hlt, decide_false, false_eq_true, if_false] at hafter hnewer
      subst hafter
      simp only [Versioned.Replica.receive, hnewer, false_eq_true, if_false]
      exact ⟨hlast, hposition, hbound⟩

theorem reset_object {seen : List N} {handle : MarketHandle} {m : Market N F}
    (hseen : m.bnMarketName ∈ seen) : ∀ (handles : List MarketHandle) {s : MarketsState N F},
    s.objects[handle]? = some m →
    (handles.foldl (fun s handle =>
      if ∃ name ∈ seen, s.handleName handle = some name then s
      else s.withMut handle (resetMissingBalance env)) s).objects[handle]? = some m
  | [], _, hm => hm
  | first :: handles, s, hm => by
    rw [foldl_cons]
    refine reset_object hseen handles ?_
    split
    · exact hm
    rename_i hnot
    have hne : first ≠ handle := by
      rintro rfl
      exact hnot ⟨m.bnMarketName, hseen, by rw [handleName, hm]; rfl⟩
    exact (objects_withMut_other hne).trans hm

/-- A full snapshot with a row for every market sets all registers. -/
theorem mirrors_snapshot (hh : s.Handled) {upd : BalanceUpdate N F}
    (hlists : ∀ handle ∈ s.markets, ∀ m, s.objects[handle]? = some m →
      (upd.lastRow m.bnMarketName).isSome = true) :
    (s.applyBalanceSnapshot env upd).1.Mirrors upd.epoch (upd.replica env.zero) := by
  intro handle hmem m' hm'
  have hmem : handle ∈ s.markets := by
    obtain ⟨objects, heq, -⟩ := applyBalanceSnapshot_rewrites (π := Market.bnMarketName) env
      (fun _ _ _ _ => rfl) (fun _ => rfl) s upd
    rw [heq] at hmem
    exact hmem
  obtain ⟨n, hname, hentry⟩ := hh.table.complete handle hmem
  obtain ⟨m, hm, rfl⟩ := map_eq_some_iff.mp hname
  obtain ⟨item, hitem⟩ := isSome_iff_exists.mp (hlists handle hmem m hm)
  obtain ⟨m₁, hm₁, hname₁, -, hrow⟩ := applySnapshotItems_object env upd upd.items hh hmem hm
  -- the market was seen, so it is not reset
  have hseen : m₁.bnMarketName ∈ s.seenNames upd := by
    rw [hname₁]
    refine mem_filter.mpr ⟨?_, by rw [hentry]; rfl⟩
    have hfound := find?_some hitem
    have hmemItem := mem_of_find?_eq_some hitem
    rw [mem_reverse] at hmemItem
    rw [← of_decide_eq_true hfound]
    exact List.mem_map_of_mem hmemItem
  have hkept : (s.applyBalanceSnapshot env upd).1.objects[handle]? = some m₁ :=
    reset_object env hseen _ hm₁
  rw [hkept, some_inj] at hm'
  subst hm'
  obtain ⟨hposition, hepoch⟩ := hrow item hitem
  refine ⟨?_, ?_, Nat.zero_le _⟩
  · rw [hepoch]
    exact (UInt16.add_zero _).symm
  · rw [hposition, hname₁]
    show item.position = ((upd.lastRow m.bnMarketName).map (·.position)).getD _
    rw [hitem]
    rfl

end MarketsState

/-! ## Runs -/

/-- The newest number among those delivered that a test picks. -/
def newestOf (p : Nat → Bool) (delivered : List Nat) : Option Nat := (delivered.filter p).max?

/-- The number delivered last among those that a test picks. -/
def lastOf (p : Nat → Bool) (delivered : List Nat) : Option Nat := (delivered.filter p).getLast?

namespace Account

variable (env : MarketEnv N F)

/-- A full snapshot, then the incremental updates of the numbers delivered. -/
def after (a : Account N F) (snap : BalanceUpdate N F) (inc : Nat → BalanceUpdate N F)
    (delivered : List Nat) : Account N F :=
  delivered.foldl (fun a i => a.clientNewDataBalance env (inc i)) (a.clientNewDataBalance env snap)

variable (snap : BalanceUpdate N F) (inc : Nat → BalanceUpdate N F) (delivered : List Nat)

/-- The totals of the update of a number, or of the snapshot. -/
def totalsOf (number : Option Nat) : GlobalBalance F :=
  number.elim snap.totals fun i => (inc i).totals

/-- The numbers whose update carries totals. -/
def changesTotals (i : Nat) : Bool := (inc i).globalChanged

/-- The position of a market in the newest update delivered with a row for it, or in the
snapshot. -/
def newestPosition (n : N) : Option (BalancePosition F) :=
  match newestOf (fun i => ((inc i).row n).isSome) delivered with
  | some i => ((inc i).row n).map (·.position)
  | none => (snap.lastRow n).map (·.position)

/-- The account does not depend on the order: every market has the balance and position
fields of the newest update with a row for it, the totals are those of the newest update
with totals. -/
structure NewestWins (a : Account N F) : Prop where
  rows : ∀ p m, a.markets.marketAt p = some m →
    some m.position = newestPosition snap inc delivered m.bnMarketName
  totals : a.balances.global = totalsOf snap inc (newestOf (changesTotals inc) delivered)

variable {snap inc delivered} {a : Account N F}

theorem clientNewDataBalance_full (hsnap : snap.cmdId = 3) :
    (a.clientNewDataBalance env snap).markets = (a.markets.applyBalanceSnapshot env snap).1 ∧
    (a.clientNewDataBalance env snap).balances.global = snap.totals := by
  have happly : a.markets.applyBalanceUpdate env snap =
      ((a.markets.applyBalanceSnapshot env snap).1,
        some (a.markets.applyBalanceSnapshot env snap).2) := if_pos hsnap
  unfold clientNewDataBalance
  rw [happly]
  refine ⟨rfl, ?_⟩
  unfold BalancesState.applyGlobal
  rw [if_pos (.inl hsnap)]
  simp [hsnap]

theorem clientNewDataBalance_increment {upd : BalanceUpdate N F} (hupd : upd.cmdId = 4) :
    (a.clientNewDataBalance env upd).markets = (applyIncrementItems env upd a.markets upd.items).1 ∧
    (a.clientNewDataBalance env upd).balances.global =
      if upd.globalChanged then upd.totals else a.balances.global := by
  have happly : a.markets.applyBalanceUpdate env upd =
      ((applyIncrementItems env upd a.markets upd.items).1,
        some (a.markets.applyBalanceIncrement env upd).2) := by
    unfold applyBalanceUpdate
    rw [if_neg (by rw [hupd]; decide), if_pos hupd]
    rfl
  unfold clientNewDataBalance
  rw [happly]
  refine ⟨rfl, ?_⟩
  unfold BalancesState.applyGlobal
  rw [if_pos (.inr hupd)]
  simp [hupd]

theorem after_rewrites (hsnap : snap.cmdId = 3) (hinc : ∀ i ∈ delivered, (inc i).cmdId = 4)
    (a : Account N F) :
    Rewrites Market.bnMarketName a.markets (a.after env snap inc delivered).markets := by
  have hfirst : Rewrites Market.bnMarketName a.markets
      (a.clientNewDataBalance env snap).markets := by
    rw [(clientNewDataBalance_full env hsnap).1]
    exact applyBalanceSnapshot_rewrites env (fun _ _ _ _ => rfl) (fun _ => rfl) a.markets snap
  unfold after
  generalize a.clientNewDataBalance env snap = a₁ at hfirst
  induction delivered generalizing a₁ with
  | nil => exact hfirst
  | cons i delivered ih =>
    refine ih (fun j hj => hinc j (mem_cons_of_mem _ hj)) _ (hfirst.trans ?_)
    rw [(clientNewDataBalance_increment env (hinc i mem_cons_self)).1]
    exact applyIncrementItems_rewrites env (fun _ _ _ _ => rfl) (inc i) (inc i).items a₁.markets

/-- The incremental updates of a snapshot's epoch: numbers from 1 to at most 1000. -/
def Increments (snap : BalanceUpdate N F) (inc : Nat → BalanceUpdate N F) (i : Nat) : Prop :=
  0 < i ∧ i ≤ 1000 ∧ (inc i).cmdId = 4 ∧ (inc i).epoch = snap.epoch + UInt16.ofNat i

/-- After any deliveries the markets mirror the registers that took the same messages, and
the totals are those delivered last. -/
theorem foldl_increments {e : UInt16} : ∀ (delivered : List Nat) {a : Account N F}
    {r : Versioned.Replica N (BalancePosition F)}, a.markets.Handled → a.markets.Mirrors e r →
    (∀ i ∈ delivered, i ≤ 1000 ∧ (inc i).cmdId = 4 ∧ (inc i).epoch = e + UInt16.ofNat i) →
    let a' := delivered.foldl (fun a i => a.clientNewDataBalance env (inc i)) a
    a'.markets.Mirrors e
      (delivered.foldl (fun r i => r.receive ((inc i).message env.zero i)) r) ∧
    a'.balances.global =
      (lastOf (changesTotals inc) delivered).elim a.balances.global fun i => (inc i).totals
  | [], _, _, _, hm, _ => ⟨hm, rfl⟩
  | i :: delivered, a, r, hh, hm, hinc => by
    obtain ⟨hi, hcmd, hepoch⟩ := hinc i mem_cons_self
    obtain ⟨hmarkets, hglobal⟩ := clientNewDataBalance_increment (a := a) env hcmd
    have hw := applyIncrementItems_rewrites (π := Market.bnMarketName) env (fun _ _ _ _ => rfl)
      (inc i) (inc i).items a.markets
    rw [← hmarkets] at hw
    have hstep := hm.increment env hh hi hepoch
    rw [← hmarkets] at hstep
    obtain ⟨hmirror, htotals⟩ := foldl_increments delivered (hh.rewrites hw) hstep
      fun j hj => hinc j (mem_cons_of_mem _ hj)
    refine ⟨hmirror, htotals.trans ?_⟩
    unfold lastOf
    cases hchanged : changesTotals inc i with
    | false =>
      have hkept : (a.clientNewDataBalance env (inc i)).balances.global = a.balances.global := by
        rw [hglobal, if_neg (by rw [changesTotals] at hchanged; rw [hchanged]; decide)]
      rw [filter_cons_of_neg (by rw [hchanged]; decide), hkept]
    | true =>
      have hset : (a.clientNewDataBalance env (inc i)).balances.global = (inc i).totals := by
        rw [hglobal, if_pos (by rw [changesTotals] at hchanged; exact hchanged)]
      rw [filter_cons_of_pos hchanged, getLast?_cons, hset]
      cases (delivered.filter (changesTotals inc)).getLast? <;> rfl

end Account

namespace Account

variable (env : MarketEnv N F) {snap : BalanceUpdate N F} {inc : Nat → BalanceUpdate N F}
  {delivered : List Nat}

omit [DecidableEq N] in
theorem newestOf_eq_some {p : Nat → Bool} {k : Nat} (hk : k ∈ delivered) (hp : p k = true)
    (hmax : ∀ j ∈ delivered, p j = true → j ≤ k) : newestOf p delivered = some k := by
  unfold newestOf
  rw [max?_eq_some_iff]
  refine ⟨mem_filter.mpr ⟨hk, hp⟩, fun j hj => ?_⟩
  obtain ⟨hj, hpj⟩ := mem_filter.mp hj
  exact hmax j hj hpj

omit [DecidableEq N] in
theorem newestOf_eq_none {p : Nat → Bool} (hnone : ∀ j ∈ delivered, p j = false) :
    newestOf p delivered = none := by
  unfold newestOf
  rw [max?_eq_none_iff, filter_eq_nil_iff]
  intro j hj
  rw [hnone j hj]
  decide

/-- The register of a market that the snapshot lists holds the newest position. -/
theorem register_eq (hpos : ∀ i ∈ delivered, 0 < i) {n : N}
    (hlists : (snap.lastRow n).isSome = true) :
    some ((delivered.foldl (fun r i => r.receive ((inc i).message env.zero i))
      (snap.replica env.zero)).value n) = newestPosition snap inc delivered n := by
  have hnumber : ∀ i, ((inc i).message env.zero i).version = i := fun _ => rfl
  obtain ⟨-, hall, hlast⟩ := Versioned.Replica.receive_all hnumber n delivered
    (snap.replica env.zero)
  unfold newestPosition
  rcases hlast with ⟨hseen, hvalue⟩ | ⟨k, hk, hcarries, hseen, hvalue⟩
  · -- no update has a row: every number is positive and the register was never raised
    rw [newestOf_eq_none fun j hj => ?_, hvalue]
    · obtain ⟨item, hitem⟩ := isSome_iff_exists.mp hlists
      rw [hitem]
      show some (((snap.lastRow n).map (·.position)).getD _) = _
      rw [hitem]
      rfl
    · by_contra hcarries
      have hle := hall j hj (eq_true_of_not_eq_false hcarries)
      rw [hseen] at hle
      exact absurd (hpos j hj) (Nat.not_lt.mpr hle)
  · have hmax : ∀ j ∈ delivered, ((inc j).row n).isSome = true → j ≤ k :=
      fun j hj hc => hseen ▸ hall j hj hc
    rw [newestOf_eq_some (p := fun i => ((inc i).row n).isSome) hk hcarries hmax, hvalue]
    obtain ⟨item, hitem⟩ := isSome_iff_exists.mp hcarries
    show some ((((inc k).row n).map (·.position)).getD _) = ((inc k).row n).map _
    rw [hitem]
    rfl

end Account

/-- **Balance rows are newest-wins, account totals are last-wins.** In every state of the
market tables that a run can reach, after a full snapshot that lists every known market and
any deliveries of the incremental updates of the next 1000 epochs, the account holds what
the newest updates carried exactly if the update with totals that was delivered last has
the same totals as the newest one. -/
theorem balance_newest_wins_iff (env : MarketEnv N F) {copyMaxLeverage : Bool} {eps epsM : F}
    {inputs : List (MarketsInput N F)} {a : Account N F}
    (hrun : Run.run (MarketsState.step env) (.new copyMaxLeverage eps epsM) inputs = some a.markets)
    {snap : BalanceUpdate N F} (hsnap : snap.cmdId = 3)
    (hlists : ∀ p m, a.markets.marketAt p = some m → (snap.lastRow m.bnMarketName).isSome = true)
    {inc : Nat → BalanceUpdate N F} {delivered : List Nat}
    (hinc : ∀ i ∈ delivered, Account.Increments snap inc i) :
    Account.NewestWins snap inc delivered (a.after env snap inc delivered) ↔
      Account.totalsOf snap inc (lastOf (Account.changesTotals inc) delivered) =
        Account.totalsOf snap inc (newestOf (Account.changesTotals inc) delivered) := by
  have hh := MarketsState.handled_of_run env hrun
  have hlists' : ∀ handle ∈ a.markets.markets, ∀ m, a.markets.objects[handle]? = some m →
      (snap.lastRow m.bnMarketName).isSome = true := by
    intro handle hmem m hm
    obtain ⟨p, hp⟩ := mem_iff_getElem?.mp hmem
    exact hlists p m (by rw [marketAt, hp, bind_some, hm])
  obtain ⟨hmarkets, hglobal⟩ := Account.clientNewDataBalance_full (a := a) env hsnap
  obtain ⟨objects, hstate, hsame⟩ := applyBalanceSnapshot_rewrites (π := Market.bnMarketName) env
    (fun _ _ _ _ => rfl) (fun _ => rfl) a.markets snap
  have hmirror := mirrors_snapshot env hh hlists'
  rw [← hmarkets] at hmirror hstate
  have hh₁ := hh.rewrites ⟨objects, hstate, hsame⟩
  obtain ⟨hfinal, htotals⟩ := Account.foldl_increments env delivered hh₁ hmirror
    fun i hi => ⟨(hinc i hi).2.1, (hinc i hi).2.2⟩
  rw [hglobal] at htotals
  have hrows : ∀ p m, (a.after env snap inc delivered).markets.marketAt p = some m →
      some m.position = Account.newestPosition snap inc delivered m.bnMarketName := by
    intro p m hm
    obtain ⟨handle, hhandle, hm⟩ := bind_eq_some_iff.mp hm
    have hmem := mem_of_getElem? hhandle
    obtain ⟨-, hposition, -⟩ := hfinal handle hmem m hm
    rw [hposition]
    refine Account.register_eq env (fun i hi => (hinc i hi).1) ?_
    -- the markets are those the snapshot found, under the same names
    obtain ⟨objects', hstate', hsame'⟩ := Account.after_rewrites env hsnap
      (fun i hi => (hinc i hi).2.2.1) a
    rw [hstate'] at hmem hm
    have hname := hsame' handle
    rw [show objects'[handle]? = some m from hm, map_some] at hname
    obtain ⟨m₀, hm₀, hname₀⟩ := map_eq_some_iff.mp hname.symm
    rw [← hname₀]
    exact hlists' handle hmem m₀ hm₀
  constructor
  · intro h
    exact htotals.symm.trans h.totals
  · intro h
    exact ⟨hrows, htotals.trans h⟩

/-! ## One market -/

namespace BalanceSample

/-- An update of market A whose position size and totals are one number. -/
def update (cmdId : UInt8) (epoch : UInt16) (x : ℚ) : BalanceUpdate Bytes ℚ where
  cmdId := cmdId
  epoch := epoch
  globalChanged := true
  btcBalanceTotal := x
  btcBalanceLocked := 0
  btcBalanceFull := x
  specialCoinBalance := 0
  items := [⟨[65], { BalancePosition.missing 0 with posSize := x }, 0⟩]

def snap : BalanceUpdate Bytes ℚ := update 3 65535 0

/-- The updates that follow, across the wrap of the epoch. -/
def inc (i : Nat) : BalanceUpdate Bytes ℚ := update 4 (65535 + UInt16.ofNat i) i

def inputs : List (MarketsInput Bytes ℚ) := [MarketSample.list [MarketSample.row 65 0]]

def markets : MarketsState Bytes ℚ := (MarketSample.run inputs).getD (.new false 0 0)

def account : Account Bytes ℚ where
  markets := markets
  balances := ⟨⟨0, 0, 0, 0⟩, 0⟩

theorem run_inputs : Run.run (MarketsState.step MarketSample.env) (.new false 0 0) inputs =
    some account.markets := by
  have hsome : (MarketSample.run inputs).isSome = true := by decide +kernel
  dsimp only [account, markets]
  exact (getD_of_ne_none (isSome_iff_ne_none.mp hsome) _).symm

theorem lists_known (p : Nat) (m : Market Bytes ℚ) (hm : account.markets.marketAt p = some m) :
    (snap.lastRow m.bnMarketName).isSome = true := by
  have hall : account.markets.objects.all (fun m => (snap.lastRow m.bnMarketName).isSome) =
      true := by decide +kernel
  obtain ⟨handle, -, hm⟩ := bind_eq_some_iff.mp hm
  exact List.all_eq_true.mp hall m (mem_of_getElem? hm)

end BalanceSample

open BalanceSample in
/-- The second update overtakes the first, the third comes last. -/
theorem balance_newest_wins_sample :
    Account.NewestWins snap inc [2, 1, 3] (account.after MarketSample.env snap inc [2, 1, 3]) := by
  refine (balance_newest_wins_iff (a := account) MarketSample.env run_inputs rfl lists_known
    fun i hi => ?_).mpr (by decide +kernel)
  have hbound : 0 < i ∧ i ≤ 1000 := by
    have hall : ∀ j ∈ [2, 1, 3], 0 < j ∧ j ≤ 1000 := by decide
    exact hall i hi
  exact ⟨hbound.1, hbound.2, rfl, rfl⟩

open BalanceSample in
/-- **Totals go back** when an older update with totals is delivered after a newer one: the
market keeps the newer row, the account shows the older totals. -/
theorem balance_totals_go_back :
    ((account.after MarketSample.env snap inc [2, 1]).markets.marketAt 0).map
      (·.position.posSize) = some 2 ∧
    (account.after MarketSample.env snap inc [2, 1]).balances.global.btcBalanceTotal = 1 ∧
    (Account.totalsOf snap inc
      (newestOf (Account.changesTotals inc) [2, 1])).btcBalanceTotal = 2 := by
  decide +kernel

end MoonProto
