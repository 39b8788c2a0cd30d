import MoonProto.Lib.Run
import MoonProto.State.MarketBalances
import MoonProto.State.MarketTables

/-!
# Finding a market

Market lists, name lists, prices, stale marks, balances and session profits all reach a
market through one of four tables. In every run in which no list payload breaks off
after it has entered a new name, the tables say the same: the name table is exact, the
handle table is the name table followed by the market vector, and a server index leads
to the market of the name that stands there in the latest name list.

A payload that breaks off after a new name leaves that name without a market. The name
is then never added again, and the next market that is added takes its position.
-/

namespace MoonProto

open Codec EngineStreamReader List Option

variable {N F : Type}

/-! ## Balances and session profits -/

namespace MarketsState

variable (env : MarketEnv N F) {s : MarketsState N F} {names : List N}

theorem Coherent.marketByIndex (h : s.Coherent names) {mIndex : UInt16}
    (hhas : s.hasServerMarketIndex mIndex = true) :
    ∃ handle m, s.marketByIndex mIndex = some handle ∧ s.objects[handle]? = some m ∧
      s.marketIndexes[mIndex.toNat]? = some m.bnMarketName ∧
      s.handlesByName m.bnMarketName = some handle := by
  obtain ⟨hsync, hsome⟩ := Bool.and_eq_true_iff.mp hhas
  obtain ⟨p, hp⟩ := isSome_iff_exists.mp hsome
  have hpos : s.localPosForServerIndex mIndex = some p := by
    unfold localPosForServerIndex
    rw [if_pos hsync, hp]
  have hname := hpos
  rw [h.localPos_eq, if_pos hsync] at hname
  obtain ⟨n, hn, hbyName⟩ := bind_eq_some_iff.mp hname
  obtain ⟨handle, m, hvec, hm, rfl⟩ := h.lookup.found hbyName
  refine ⟨handle, m, ?_, hm, hn, ?_⟩
  · unfold MarketsState.marketByIndex
    rw [if_pos hsync, hpos, bind_some, hvec]
  · rw [h.lookup.handles, hbyName, bind_some, hvec]

theorem Coherent.handle_eq (h : s.Coherent names) {handle : MarketHandle} {m : Market N F}
    (hmem : handle ∈ s.markets) (hm : s.objects[handle]? = some m) :
    s.handlesByName m.bnMarketName = some handle := by
  obtain ⟨p, hp⟩ := mem_iff_getElem?.mp hmem
  obtain ⟨m', hm', hname⟩ := h.lookup.listed hp
  rw [hm, some_inj] at hm'
  rw [hm', h.lookup.handles, hname, bind_some, hp]

theorem Rewrites.hasServerMarketIndex {α : Type} {π : Market N F → α} {s' : MarketsState N F}
    (hw : Rewrites π s s')
    (mIndex : UInt16) : s'.hasServerMarketIndex mIndex = s.hasServerMarketIndex mIndex := by
  obtain ⟨objects, rfl, -⟩ := hw
  rfl

theorem Rewrites.tables {α : Type} {π : Market N F → α} {s' : MarketsState N F}
    (hw : Rewrites π s s') : s'.markets = s.markets ∧ s'.handlesByName = s.handlesByName ∧
      s'.marketIndexes = s.marketIndexes ∧ s'.marketByIndex = s.marketByIndex := by
  obtain ⟨objects, rfl, -⟩ := hw
  exact ⟨rfl, rfl, rfl, rfl⟩

theorem applySessionProfitItems_total : ∀ (items : List (MarketSessionProfitItem F))
    {s : MarketsState N F}, s.Coherent names →
    (∀ item ∈ items, s.hasServerMarketIndex item.marketIndex = true) →
    ∃ s', s.applySessionProfitItems items = some s' ∧ Rewrites Market.bnMarketName s s'
  | [], s, _, _ => ⟨s, rfl, Rewrites.refl s⟩
  | item :: items, s, h, hvalid => by
    obtain ⟨handle, m, hhandle, -, -, -⟩ := h.marketByIndex (hvalid item mem_cons_self)
    have hw := withMut_rewrites (π := Market.bnMarketName)
      (f := fun m => { m with sessionProfit := some item.sessionProfit }) (fun _ => rfl) s handle
    obtain ⟨s', hs', hw'⟩ := applySessionProfitItems_total items (h.rewrites hw)
      fun item' hitem => by
        rw [hw.hasServerMarketIndex]
        exact hvalid item' (mem_cons_of_mem _ hitem)
    refine ⟨s', ?_, hw.trans hw'⟩
    rw [applySessionProfitItems, hhandle]
    exact hs'

theorem clearSessionProfitsForNewWorld_rewrites (s : MarketsState N F) :
    Rewrites Market.bnMarketName { s with
      lastSessionProfitEpoch := none
      sessionProfitServerToken := 0
      sessionProfitReady := false
      sessionProfitRequestTime := 0 } s.clearSessionProfitsForNewWorld :=
  forEachMarket_rewrites (fun _ => by rfl) _

/-- What a packet starts from: a full one clears the profits first. -/
def clearedFor (full : Bool) (s : MarketsState N F) : MarketsState N F :=
  if full then s.forEachMarket fun m => { m with sessionProfit := some env.zero } else s

theorem clearedFor_rewrites (full : Bool) (s : MarketsState N F) :
    Rewrites Market.bnMarketName s (s.clearedFor env full) := by
  unfold clearedFor
  split
  · exact forEachMarket_rewrites
      (f := fun m => { m with sessionProfit := some env.zero }) (fun _ => rfl) s
  · exact Rewrites.refl s

/-- The three answers to a session-profit packet. It is ignored; it is refused, which
takes back the readiness; or all its rows are written. -/
theorem applySessionProfitState_cases (h : s.Coherent names)
    (upd : MarketSessionProfitUpdate F) (full : Bool) (serverToken : UInt64) :
    s.applySessionProfitState env upd full serverToken = some (s, .ok none) ∨
    s.applySessionProfitState env upd full serverToken =
      some ({ s with sessionProfitReady := false }, .error ()) ∨
    (serverToken ≠ 0 ∧ s.indexesSynchronized = true ∧
      (∀ item ∈ upd.items, s.hasServerMarketIndex item.marketIndex = true) ∧
      (full = false → serverToken = s.sessionProfitServerToken ∧ s.sessionProfitReady = true ∧
        upd.epoch - s.lastSessionProfitEpoch.getD 0 = 1) ∧
      ∃ s' event, (s.clearedFor env full).applySessionProfitItems upd.items = some s' ∧
        Rewrites Market.bnMarketName s s' ∧
        s.applySessionProfitState env upd full serverToken =
          some ({ s' with
            lastSessionProfitEpoch := some upd.epoch
            sessionProfitServerToken := serverToken
            sessionProfitReady := true
            sessionProfitRequestTime := 0 }, .ok (some event))) := by
  unfold applySessionProfitState
  split
  · exact .inl rfl
  rename_i hlive
  dsimp only
  split
  · exact .inl rfl
  split
  · exact .inr (.inl rfl)
  rename_i hvalid
  simp only [Bool.or_eq_true, not_or, List.any_eq_true, Bool.not_eq_true', not_exists,
    not_and, Bool.not_eq_false, Bool.and_eq_true, bne_iff_ne, ne_eq, Decidable.not_not]
    at hvalid
  obtain ⟨hnext, hitems⟩ := hvalid
  have hw := clearedFor_rewrites env full s
  obtain ⟨s', hs', hw'⟩ := applySessionProfitItems_total upd.items (h.rewrites hw)
    fun item hitem => (hw.hasServerMarketIndex _).trans (hitems item hitem)
  refine .inr (.inr ⟨fun hzero => hlive (.inl hzero),
    by simpa using fun hstale => hlive (.inr hstale), hitems, fun hinc => ?_, s',
    if full then .sessionProfitsApplied upd.items.length
      else .sessionProfitsUpdated upd.items.length, hs', hw.trans hw', ?_⟩)
  · obtain ⟨⟨hsame, hready⟩, hone⟩ := hnext hinc
    exact ⟨by simpa using hsame, hready, hone⟩
  · unfold clearedFor at hs'
    rw [hs']
    rfl

theorem applySessionProfitState_total (h : s.Coherent names)
    (upd : MarketSessionProfitUpdate F) (full : Bool) (serverToken : UInt64) :
    ∃ s' answer, s.applySessionProfitState env upd full serverToken = some (s', answer) ∧
      s'.Coherent names ∧ s'.marketIndexes = s.marketIndexes := by
  rcases applySessionProfitState_cases env h upd full serverToken with
    heq | heq | ⟨-, -, -, -, s', event, -, hw, heq⟩
  · exact ⟨_, _, heq, h, rfl⟩
  · exact ⟨_, _, heq, ⟨h.lookup, h.positions, h.cold⟩, rfl⟩
  · have h' := h.rewrites hw
    exact ⟨_, _, heq, ⟨h'.lookup, h'.positions, h'.cold⟩, hw.tables.2.2.1⟩

section balances

variable {α : Type} {π : Market N F → α}
  (hπ : ∀ (item : BalanceItem N F) epoch eps m, π (applyBalanceItem env item epoch eps m) = π m)

include hπ

theorem applySnapshotItems_rewrites (upd : BalanceUpdate N F) :
    ∀ (items : List (BalanceItem N F)) (s : MarketsState N F),
      Rewrites π s (applySnapshotItems env upd s items).1
  | [], s => Rewrites.refl s
  | item :: items, s => by
    unfold applySnapshotItems
    cases s.handlesByName item.marketName with
    | none => exact applySnapshotItems_rewrites upd items s
    | some handle =>
      exact (withMut_rewrites (hπ item upd.epoch s.eps) s handle).trans
        (applySnapshotItems_rewrites upd items _)

theorem applyIncrementItems_rewrites (upd : BalanceUpdate N F) :
    ∀ (items : List (BalanceItem N F)) (s : MarketsState N F),
      Rewrites π s (applyIncrementItems env upd s items).1
  | [], s => Rewrites.refl s
  | item :: items, s => by
    unfold applyIncrementItems
    cases s.handlesByName item.marketName with
    | none => exact applyIncrementItems_rewrites upd items s
    | some handle =>
      by_cases hepoch : (s.objects[handle]?).any fun m => epochIsOk m.lastBalanceEpoch upd.epoch
      · simp only [hepoch, if_true]
        exact (withMut_rewrites (hπ item upd.epoch s.eps) s handle).trans
          (applyIncrementItems_rewrites upd items _)
      · simp only [hepoch]
        exact applyIncrementItems_rewrites upd items s

theorem applyBalanceSnapshot_rewrites [DecidableEq N]
    (hreset : ∀ m, π (resetMissingBalance env m) = π m) (s : MarketsState N F)
    (upd : BalanceUpdate N F) : Rewrites π s (s.applyBalanceSnapshot env upd).1 := by
  refine (applySnapshotItems_rewrites env hπ upd upd.items s).trans ?_
  refine foldl_rewrites (fun s handle => ?_) _ _
  split
  · exact Rewrites.refl s
  · exact withMut_rewrites hreset s handle

theorem applyBalanceUpdate_rewrites [DecidableEq N]
    (hreset : ∀ m, π (resetMissingBalance env m) = π m) (s : MarketsState N F)
    (upd : BalanceUpdate N F) : Rewrites π s (s.applyBalanceUpdate env upd).1 := by
  unfold applyBalanceUpdate
  split
  · exact applyBalanceSnapshot_rewrites env hπ hreset s upd
  split
  · exact applyIncrementItems_rewrites env hπ upd upd.items s
  · exact Rewrites.refl s

end balances

end MarketsState

/-! ## Runs -/

inductive MarketsInput (N F : Type)
  | marketsList (data : Bytes) (ver : UInt16) (shiftDays : F)
  | marketsIndexes (names : List N)
  | marketsPrices (data : Bytes) (shiftDays : F)
  | indexesStale
  | balance (upd : BalanceUpdate N F)
  | sessionProfits (upd : MarketSessionProfitUpdate F) (full : Bool) (serverToken : UInt64)
  | newWorld

namespace MarketsState

variable [DecidableEq N] (env : MarketEnv N F)

/-- One input; `none` is the panic of a session-profit row without a market. -/
def step (s : MarketsState N F) : MarketsInput N F → Option (MarketsState N F)
  | .marketsList data ver shiftDays => some (s.applyMarketsListPayload env data ver shiftDays).1
  | .marketsIndexes names => some (s.applyMarketsIndexes names).1
  | .marketsPrices data shiftDays => some (s.applyMarketsPricesPayload env data shiftDays).1
  | .indexesStale => some s.markIndexesStale
  | .balance upd => some (s.applyBalanceUpdate env upd).1
  | .sessionProfits upd full serverToken =>
    (s.applySessionProfitState env upd full serverToken).map (·.1)
  | .newWorld => some s.clearSessionProfitsForNewWorld

/-- The name list received last, when the one before is `names`: one that came by itself, or the
names of a list that was read to its last row and that brings the indexes. -/
def nameList (s : MarketsState N F) (names : List N) : MarketsInput N F → List N
  | .marketsIndexes names => names
  | .marketsList data ver shiftDays =>
    match listRows env ver shiftDays data, s.rebuildsServerIndexes with
    | some (rows, some _), true => rows.map (·.bnMarketName)
    | _, _ => names
  | _ => names

/-- The name list received last in a run. -/
def lastNameList (s : MarketsState N F) (names : List N) : List (MarketsInput N F) → List N
  | [] => names
  | input :: inputs =>
    (s.step env input).elim names fun s' => lastNameList s' (s.nameList env names input) inputs

/-- The condition on a list payload: if it breaks off while new markets are allowed, the
rows before that name known markets; if it is read to its last row it does not replace
the name list of known markets by an empty one. -/
def AdoptableRows (s : MarketsState N F) (rows : List (Market N F)) (rest : Option Bytes) : Prop :=
  if rest.isSome then rows = [] → s.rebuildsServerIndexes = true → s.markets = []
  else s.allowNewMarkets = true → ∀ row ∈ rows, (s.byName row.bnMarketName).isSome = true

/-- The condition on an input: list payloads as above, and no empty name list while
markets are known. -/
def Adoptable (s : MarketsState N F) : MarketsInput N F → Prop
  | .marketsList data ver shiftDays => ∀ rows rest,
    listRows env ver shiftDays data = some (rows, rest) → s.AdoptableRows rows rest
  | .marketsIndexes names => names = [] → s.markets = []
  | _ => True

instance (s : MarketsState N F) (rows : List (Market N F)) (rest : Option Bytes) :
    Decidable (s.AdoptableRows rows rest) :=
  inferInstanceAs (Decidable (if rest.isSome then _ else _))

instance decidableAdoptable (s : MarketsState N F) :
    ∀ input : MarketsInput N F, Decidable (s.Adoptable env input)
  | .marketsList data ver shiftDays =>
    match h : listRows env ver shiftDays data with
    | none => isTrue (by simp [Adoptable, h])
    | some (rows, rest) => decidable_of_iff (s.AdoptableRows rows rest) (by simp [Adoptable, h])
  | .marketsIndexes names => inferInstanceAs (Decidable (names = [] → s.markets = []))
  | .marketsPrices .. | .indexesStale | .balance .. | .sessionProfits .. | .newWorld =>
    isTrue trivial

variable {s s' : MarketsState N F} {names : List N}

theorem applyMarketsListPayload_coherent (h : s.Coherent names) {data : Bytes} {ver : UInt16}
    {shiftDays : F} (hok : s.Adoptable env (.marketsList data ver shiftDays)) :
    (∃ names', (s.applyMarketsListPayload env data ver shiftDays).1.Coherent names') ∧
      (s.applyMarketsListPayload env data ver shiftDays).1.marketIndexes =
        s.nameList env s.marketIndexes (.marketsList data ver shiftDays) := by
  simp only [nameList]
  rcases s.applyMarketsListPayload_cases env data ver shiftDays with
    ⟨hrows, heq⟩ | ⟨rows, hrows, heq⟩ | ⟨rows, r, hrows, heq⟩
  · rw [heq, hrows]
    exact ⟨⟨names, h⟩, rfl⟩
  · obtain ⟨objects, byName, hstate⟩ := (batchOf_spec env h rows).1.frame
    rw [heq, hrows]
    exact ⟨batchOf_known env h (hok rows none hrows), by rw [hstate]; rfl⟩
  · obtain ⟨⟨names', hadopted⟩, hindexes, -⟩ := adopted_coherent env h (hok rows (some r) hrows)
    obtain ⟨needed, hfinish⟩ := finishMarketsList_state env (s.adopted env rows) r
    rw [heq, hfinish, hrows]
    refine ⟨⟨names', hadopted.lookup, hadopted.positions, hadopted.cold⟩, hindexes.trans ?_⟩
    cases s.rebuildsServerIndexes <;> rfl

theorem step_coherent (h : ∃ names, s.Coherent names) {input : MarketsInput N F}
    (hok : s.Adoptable env input) :
    ∃ s', s.step env input = some s' ∧ (∃ names, s'.Coherent names) ∧
      s'.marketIndexes = s.nameList env s.marketIndexes input := by
  obtain ⟨names, h⟩ := h
  cases input with
  | marketsList data ver shiftDays => exact ⟨_, rfl, applyMarketsListPayload_coherent env h hok⟩
  | marketsIndexes newNames => exact ⟨_, rfl, ⟨names, h.lookup, rfl, hok⟩, rfl⟩
  | marketsPrices data shiftDays =>
    have hr := applyMarketsPricesPayload_repriced env (π := Market.bnMarketName)
      (fun _ _ _ _ => rfl) (fun _ => rfl) s data shiftDays
    have ⟨_, hw⟩ := hr
    exact ⟨_, rfl, ⟨names, h.repriced hr⟩, hw.tables.2.2.1⟩
  | indexesStale => exact ⟨_, rfl, ⟨names, h.lookup, h.positions, h.cold⟩, rfl⟩
  | balance upd =>
    have hw := applyBalanceUpdate_rewrites env (π := Market.bnMarketName) (fun _ _ _ _ => rfl)
      (fun _ => rfl) s upd
    exact ⟨_, rfl, ⟨names, h.rewrites hw⟩, hw.tables.2.2.1⟩
  | sessionProfits upd full serverToken =>
    obtain ⟨s', answer, heq, h', hnames⟩ := applySessionProfitState_total env h upd full serverToken
    exact ⟨s', by rw [step, heq]; rfl, ⟨names, h'⟩, hnames⟩
  | newWorld =>
    have hw := s.clearSessionProfitsForNewWorld_rewrites
    refine ⟨_, rfl, ⟨names, Coherent.rewrites ?_ hw⟩, hw.tables.2.2.1⟩
    exact ⟨h.lookup, h.positions, h.cold⟩

/-- The stored name list is the one received last. -/
theorem marketIndexes_run {inputs : List (MarketsInput N F)} (h : ∃ names, s.Coherent names)
    (hok : Run.Along (step env) (Adoptable env) s inputs)
    (hrun : Run.run (step env) s inputs = some s') :
    s'.marketIndexes = s.lastNameList env s.marketIndexes inputs := by
  induction inputs generalizing s with
  | nil => exact congrArg marketIndexes (some_inj.mp hrun).symm
  | cons input inputs ih =>
    obtain ⟨s₁, hs₁, h₁, hnames⟩ := step_coherent env h hok.1
    rw [Run.run, hs₁, bind_some] at hrun
    rw [lastNameList, hs₁, ← hnames]
    exact ih h₁ (hok.2 s₁ hs₁) hrun

end MarketsState

/-- What holds of the market tables, and of everything that looks a market up in them, when
`names` is the name list received last. -/
structure MarketsState.LookupCoherent [DecidableEq N] (env : MarketEnv N F) (names : List N)
    (s : MarketsState N F) : Prop where
  /-- The name table maps a name to the position of the market with exactly that name. -/
  byName : ∀ n p, s.byName n = some p ↔ ∃ m, s.marketAt p = some m ∧ m.bnMarketName = n
  /-- Every market is in the name table and in the handle table under its own name. -/
  listed : ∀ p handle, s.markets[p]? = some handle → ∃ m, s.objects[handle]? = some m ∧
    s.byName m.bnMarketName = some p ∧ s.handlesByName m.bnMarketName = some handle
  /-- A server index has the position of the market named there in the latest name list. -/
  indexes : s.indexesSynchronized = true →
    s.serverMarketPositions = names.map s.byName
  /-- A row of a list, after any rows before it, changes no market of another name. -/
  listRow : ∀ (allow rebuild : Bool) (rows : List (Market N F)) (row : Market N F)
    (handle : MarketHandle) (m : Market N F),
    let b := rows.foldl (ListBatch.applyRow env allow rebuild) (.start s)
    b.state.objects[handle]? = some m → m.bnMarketName ≠ row.bnMarketName →
      (b.applyRow env allow rebuild row).state.objects[handle]? = some m
  /-- A price row, after any rows before it, changes at most the market its index names. -/
  priceRow : ∀ (sendFunding : Bool) (rows : List (MarketPriceUpdate F))
    (row : MarketPriceUpdate F) (handle : MarketHandle) (m : Market N F),
    let s' := rows.foldl (applyOneMarketPriceUpdate env sendFunding) s
    s'.objects[handle]? = some m →
      (s'.applyOneMarketPriceUpdate env sendFunding row).objects[handle]? ≠ some m →
      s.indexesSynchronized = true ∧ names[row.mIndex.toNat]? = some m.bnMarketName
  /-- Session profits never meet an index without a market. -/
  sessionProfits : ∀ upd full serverToken,
    s.applySessionProfitState env upd full serverToken ≠ none
  /-- While new markets are allowed, an accepted list makes every market of it known. -/
  added : s.allowNewMarkets = true → ∀ data ver shiftDays rows rest,
    (s.applyMarketsListPayload env data ver shiftDays).2 ≠ none →
    listRows env ver shiftDays data = some (rows, rest) → ∀ row ∈ rows,
    ∃ p m, (s.applyMarketsListPayload env data ver shiftDays).1.marketAt p = some m ∧
      m.bnMarketName = row.bnMarketName

theorem MarketsState.Coherent.lookupCoherent [DecidableEq N] (env : MarketEnv N F)
    {s : MarketsState N F} {names : List N} (h : s.Coherent names) :
    s.LookupCoherent env s.marketIndexes := by
  refine ⟨?_, ?_, fun _ => h.positions, ?_, ?_, ?_, ?_⟩
  · exact fun n p => h.byName_iff n p
  · intro p handle hp
    obtain ⟨m, hm, hname⟩ := h.lookup.listed hp
    exact ⟨m, hm, hname, h.handle_eq (mem_of_getElem? hp) hm⟩
  · intro allow rebuild rows row handle m b hm hne
    obtain ⟨-, added, hb⟩ :=
      ListBatch.foldl_applied env allow rebuild rows (ListBatch.coherent_start h)
    exact ListBatch.applyRow_other env allow rebuild hb row hm hne
  · intro sendFunding rows row handle m s' hm hchanged
    have hrows : Repriced Market.bnMarketName s s' :=
      priceRows_repriced env (fun _ _ _ _ => rfl) sendFunding rows s
    obtain ⟨hsync, hname⟩ := (h.repriced hrows).priceRow_other env sendFunding row hm hchanged
    obtain ⟨needed, objects, heq, -⟩ := hrows
    rw [heq] at hsync hname
    exact ⟨hsync, hname⟩
  · intro upd full serverToken hnone
    obtain ⟨s', answer, heq, -⟩ := applySessionProfitState_total env h upd full serverToken
    rw [heq] at hnone
    cases hnone
  · intro hallow data ver shiftDays rows rest haccepted hrows row hrow
    rcases s.applyMarketsListPayload_cases env data ver shiftDays with
      ⟨-, heq⟩ | ⟨_, _, heq⟩ | ⟨rows', r, hrows', heq⟩
    · rw [heq] at haccepted
      exact absurd rfl haccepted
    · rw [heq] at haccepted
      exact absurd rfl haccepted
    · rw [hrows', some_inj, Prod.mk.injEq] at hrows
      obtain ⟨rfl, -⟩ := hrows
      obtain ⟨⟨names', hadopted⟩, -, hknown⟩ := adopted_coherent env h
        fun hempty : rows' = [] => absurd hrow (by rw [hempty]; exact not_mem_nil)
      obtain ⟨p, hp⟩ := isSome_iff_exists.mp (hknown hallow row hrow)
      obtain ⟨m, hm, hname⟩ := (hadopted.byName_iff _ p).mp hp
      obtain ⟨needed, hfinish⟩ := finishMarketsList_state env (s.adopted env rows') r
      rw [heq, hfinish]
      exact ⟨p, m, hm, hname⟩

/-- **The market tables stay coherent** in every run whose list payloads do not break off
after a new name and whose name lists do not forget all known markets: no input panics,
and in the state reached every lookup leads to the market it is for, a server index to the
market that the name list adopted last has at it. -/
theorem market_lookup_coherent [DecidableEq N] (env : MarketEnv N F) (copyMaxLeverage : Bool)
    (eps epsM : F) (inputs : List (MarketsInput N F))
    (hok : Run.Along (MarketsState.step env) (MarketsState.Adoptable env)
      (.new copyMaxLeverage eps epsM) inputs) :
    ∃ s, Run.run (MarketsState.step env) (.new copyMaxLeverage eps epsM) inputs = some s ∧
      s.LookupCoherent env
        ((MarketsState.new copyMaxLeverage eps epsM).lastNameList env [] inputs) := by
  have hnew : ∃ names : List N, (MarketsState.new copyMaxLeverage eps epsM).Coherent names :=
    ⟨[], MarketsState.coherent_new copyMaxLeverage eps epsM⟩
  obtain ⟨s, hrun, names, h⟩ := Run.run_total
    (I := fun s : MarketsState N F => ∃ names, s.Coherent names)
    (fun s input hs hin => (MarketsState.step_coherent env hs hin).imp fun _ h => ⟨h.1, h.2.1⟩)
    hnew hok
  refine ⟨s, hrun, ?_⟩
  rw [show [] = (MarketsState.new copyMaxLeverage eps epsM).marketIndexes from rfl,
    ← MarketsState.marketIndexes_run env hnew hok hrun]
  exact h.lookupCoherent env

/-! ## Two markets -/

namespace MarketSample

/-- Exact arithmetic, names as their bytes, and doubles read as whole numbers. -/
def env : MarketEnv Bytes ℚ := ⟨id, fun bits => (bits.toNat : ℚ), FloatOps.rat⟩

/-- A version 1 row of a market with a name of one letter and a price precision; all
its other fields are zero. -/
def row (name precision : UInt8) : Bytes :=
  [1, 0, name] ++ List.replicate 18 0 ++ [precision, 0, 0, 0] ++ List.replicate 193 0

def listData (rows : List Bytes) : Bytes := u32Bytes (UInt32.ofNat rows.length) ++ rows.flatten

abbrev list (rows : List Bytes) : MarketsInput Bytes ℚ := .marketsList (listData rows) 1 0

/-- A list of two markets that ends inside the name of the second. -/
def truncated : MarketsInput Bytes ℚ :=
  .marketsList (u32Bytes 2 ++ row 65 0 ++ [5, 0]) 1 0

/-- One price row, for server index 0. -/
def prices (bid : UInt8) : MarketsInput Bytes ℚ :=
  .marketsPrices ([0] ++ u32Bytes 1 ++ [0, 0, bid] ++ List.replicate 24 0) 0

def profits : MarketsInput Bytes ℚ := .sessionProfits ⟨1, [⟨0, 5⟩]⟩ true 7

def inputs : List (MarketsInput Bytes ℚ) :=
  [list [row 65 0, row 66 3], .indexesStale, .marketsIndexes [[66], [67], [65]], prices 9, profits]

def run (inputs : List (MarketsInput Bytes ℚ)) : Option (MarketsState Bytes ℚ) :=
  Run.run (MarketsState.step env) (.new false 0 0) inputs

end MarketSample

open MarketSample in
/-- The two markets of a complete list, a stale mark and a new name list are found. -/
theorem market_lookup_coherent_sample :
    ∃ s, MarketSample.run inputs = some s ∧ s.LookupCoherent env [[66], [67], [65]] := by
  have hlast : (MarketsState.new false 0 0).lastNameList env [] inputs = [[66], [67], [65]] := by
    decide +kernel
  exact hlast ▸ market_lookup_coherent env false 0 0 _ (by decide +kernel)

open MarketSample in
/-- **A list that breaks off after a new name** leaves the name at a position without a
market. The next complete list with that market does not add it, and a session-profit
row for its index panics. If another market is added instead, it takes the position and
the first one's rows are written into it. Apart from that, after an empty name list and
a stale mark a price row is written by position. -/
theorem market_lookup_incoherent :
    (MarketSample.run [truncated]).map (fun s => (s.byName [65], s.markets)) = some (some 0, []) ∧
    (MarketSample.run [truncated, list [row 65 0]]).map
      (fun s => (s.indexesSynchronized, s.marketIndexes, s.markets)) = some (true, [[65]], []) ∧
    MarketSample.run [truncated, list [row 65 0], profits] = none ∧
    (MarketSample.run [truncated, list [row 66 3]]).map
      (fun s => (s.marketAt 0).map fun m => (m.bnMarketName, m.bnPricePrecision)) =
      some (some ([66], 3)) ∧
    (MarketSample.run [truncated, list [row 66 3], list [row 65 8]]).map
      (fun s => (s.marketAt 0).map fun m => (m.bnMarketName, m.bnPricePrecision)) =
      some (some ([66], 8)) ∧
    (MarketSample.run [list [row 65 0], .marketsIndexes [], .indexesStale, prices 9]).map
      (fun s => (s.indexesSynchronized, (s.marketAt 0).map (·.price.bid))) =
      some (false, some 9) := by
  decide +kernel

end MoonProto
