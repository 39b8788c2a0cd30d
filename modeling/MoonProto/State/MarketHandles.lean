import MoonProto.State.MarketLookup

/-!
# The handle table

Balance rows find their market by name in the handle table. Unlike the name table, it is
published together with the market vector, so it is right after every run, also one
with list payloads that broke off: its entries are handles of markets of that name, and
every market has its entry.
-/

namespace MoonProto

open MarketsState Function List Option ListBatch

variable {N F : Type}

/-- The entries of a handle table are the markets of the vector, each under its name. -/
structure Handled (objects : List (Market N F)) (handlesByName : N → Option MarketHandle)
    (markets : List MarketHandle) : Prop where
  sound : ∀ n handle, handlesByName n = some handle →
    handle ∈ markets ∧ nameOf objects handle = some n
  complete : ∀ handle ∈ markets, ∃ n, nameOf objects handle = some n ∧
    handlesByName n = some handle

namespace Handled

variable {objects objects' : List (Market N F)} {handlesByName : N → Option MarketHandle}
  {markets : List MarketHandle}

theorem mono (h : Handled objects handlesByName markets)
    (hsame : ∀ handle n, nameOf objects handle = some n → nameOf objects' handle = some n) :
    Handled objects' handlesByName markets := by
  constructor
  · intro n handle hn
    obtain ⟨hmem, hname⟩ := h.sound n handle hn
    exact ⟨hmem, hsame handle n hname⟩
  · intro handle hmem
    obtain ⟨n, hname, hn⟩ := h.complete handle hmem
    exact ⟨n, hsame handle n hname, hn⟩

theorem push [DecidableEq N] (h : Handled objects handlesByName markets) {m : Market N F}
    (hn : handlesByName m.bnMarketName = none) :
    Handled (objects ++ [m]) (Function.update handlesByName m.bnMarketName (some objects.length))
      (markets ++ [objects.length]) := by
  have hlast : nameOf (objects ++ [m]) objects.length = some m.bnMarketName := by
    simp [nameOf]
  have hold := h.mono fun handle n => nameOf_append (m := m)
  constructor
  · intro n handle hentry
    rcases eq_or_ne n m.bnMarketName with rfl | hne
    · rw [update_self, some_inj] at hentry
      subst hentry
      exact ⟨mem_append_right _ (mem_singleton.mpr rfl), hlast⟩
    · rw [update_of_ne hne] at hentry
      obtain ⟨hmem, hname⟩ := hold.sound n handle hentry
      exact ⟨mem_append_left _ hmem, hname⟩
  · intro handle hmem
    rcases mem_append.mp hmem with hmem | hmem
    · obtain ⟨n, hname, hentry⟩ := hold.complete handle hmem
      refine ⟨n, hname, ?_⟩
      rw [update_of_ne (fun heq => ?_), hentry]
      rw [heq, hn] at hentry
      cases hentry
    · rw [mem_singleton.mp hmem]
      exact ⟨m.bnMarketName, hlast, update_self ..⟩

end Handled

/-! ## Lists -/

/-- The invariant of the read loop, for the current tables and for those to be published. -/
structure ListBatch.Handled (b : ListBatch N F) : Prop where
  pending : MoonProto.Handled b.state.objects b.handleTable b.vector
  current : MoonProto.Handled b.state.objects b.state.handlesByName b.state.markets
  pendingNamed : ∀ n, (b.handleTable n).isSome → (b.state.byName n).isSome
  currentNamed : ∀ n, (b.state.handlesByName n).isSome → (b.state.byName n).isSome
  together : b.pendingMarkets = none → b.pendingHandlesByName = none

/-- The handle table of a state, whose names are all in the name table. -/
structure MarketsState.Handled (s : MarketsState N F) : Prop where
  table : MoonProto.Handled s.objects s.handlesByName s.markets
  named : ∀ n, (s.handlesByName n).isSome → (s.byName n).isSome

theorem MarketsState.Handled.rewrites {s s' : MarketsState N F} (h : s.Handled)
    (hw : Rewrites Market.bnMarketName s s') : s'.Handled := by
  obtain ⟨objects, rfl, hsame⟩ := hw
  exact ⟨h.table.mono fun handle n hn => (hsame handle).trans hn, h.named⟩

section lists

variable [DecidableEq N] (env : MarketEnv N F)

theorem ListBatch.applyRow_handled {b : ListBatch N F} (h : b.Handled) (allow rebuild : Bool)
    (row : Market N F) : (b.applyRow env allow rebuild row).Handled := by
  rcases applyRow_shape env allow rebuild b row with
    ⟨idx, handle, -, -, heq⟩ | ⟨hnone, -, heq⟩ | ⟨-, -, heq⟩
  · rw [heq]
    have hsame : ∀ handle' n, nameOf b.state.objects handle' = some n →
        nameOf (b.state.objects.modify handle (mergeListRow env
          b.state.copyMaxLeverageFromMarketsList b.state.eps row)) handle' = some n :=
      fun handle' n hn => (map_modify (π := Market.bnMarketName)
        (f := mergeListRow env b.state.copyMaxLeverageFromMarketsList b.state.eps row)
        (fun _ => rfl) b.state.objects handle handle').trans hn
    exact ⟨h.pending.mono hsame, h.current.mono hsame, h.pendingNamed, h.currentNamed, h.together⟩
  · rw [heq]
    have hfresh : b.handleTable row.bnMarketName = none := by
      by_contra hsome
      have := h.pendingNamed _ (isSome_iff_ne_none.mpr hsome)
      rw [hnone] at this
      cases this
    have hstays : ∀ n, (b.state.byName n).isSome →
        ((b.added env rebuild row).state.byName n).isSome := by
      intro n hn
      rcases eq_or_ne n row.bnMarketName with rfl | hne
      · simp [added]
      · simpa [added, update_of_ne hne] using hn
    have hpush := h.pending.push (m := newListMarket env b.state.lastSessionProfitEpoch row)
    rw [newListMarket_name] at hpush
    refine ⟨hpush hfresh, h.current.mono fun handle n => nameOf_append, fun n hn => ?_,
      fun n hn => hstays n (h.currentNamed n hn), fun hp => by cases hp⟩
    rcases eq_or_ne n row.bnMarketName with rfl | hne
    · simp [added]
    · refine hstays n (h.pendingNamed n ?_)
      rw [← hn]
      exact congrArg Option.isSome (update_of_ne hne _ _).symm
  · rw [heq]
    exact ⟨h.pending, h.current, h.pendingNamed, h.currentNamed, h.together⟩

theorem MarketsState.batchOf_handled {s : MarketsState N F} (h : s.Handled)
    (rows : List (Market N F)) : (s.batchOf env rows).Handled := by
  unfold batchOf
  have hstart : (start s).Handled :=
    ⟨h.table, h.table, h.named, h.named, fun _ => rfl⟩
  generalize start s = b at hstart
  induction rows generalizing b with
  | nil => exact hstart
  | cons row rows ih => exact ih _ (applyRow_handled env hstart _ _ row)

theorem MarketsState.adopted_handled {s : MarketsState N F} (h : s.Handled)
    (rows : List (Market N F)) : (s.adopted env rows).Handled := by
  have hb := batchOf_handled env h rows
  have hpublish : (s.batchOf env rows).publish.Handled := by
    unfold publish
    have hp := hb.pending
    have hn := hb.pendingNamed
    unfold vector handleTable at hp
    unfold handleTable at hn
    split
    · rename_i markets heq
      rw [heq] at hp
      exact ⟨hp, hn⟩
    · exact ⟨hb.current, hb.currentNamed⟩
  unfold adopted
  dsimp only
  split
  · exact ⟨hpublish.table, hpublish.named⟩
  · exact hpublish

end lists

/-! ## Runs -/

namespace MarketsState

variable (env : MarketEnv N F)

theorem applySessionProfitItems_rewrites : ∀ (items : List (MarketSessionProfitItem F))
    {s s' : MarketsState N F}, s.applySessionProfitItems items = some s' →
    Rewrites Market.bnMarketName s s'
  | [], s, s', hrun => by
    cases hrun
    exact Rewrites.refl s
  | item :: items, s, s', hrun => by
    obtain ⟨handle, -, hrest⟩ := bind_eq_some_iff.mp hrun
    exact (withMut_rewrites (f := fun m => { m with sessionProfit := some item.sessionProfit })
      (fun _ => rfl) s handle).trans (applySessionProfitItems_rewrites items hrest)

theorem applySessionProfitState_handled {s s' : MarketsState N F} (h : s.Handled)
    {upd : MarketSessionProfitUpdate F} {full : Bool} {serverToken : UInt64}
    {answer : Except Unit (Option BalanceEvent)}
    (hrun : s.applySessionProfitState env upd full serverToken = some (s', answer)) :
    s'.Handled := by
  unfold applySessionProfitState at hrun
  split at hrun
  · cases hrun
    exact h
  dsimp only at hrun
  split at hrun
  · cases hrun
    exact h
  split at hrun
  · cases hrun
    exact ⟨h.table, h.named⟩
  · obtain ⟨s₁, hitems, hanswer⟩ := bind_eq_some_iff.mp hrun
    have h₁ := (h.rewrites (clearedFor_rewrites env full s)).rewrites
      (applySessionProfitItems_rewrites upd.items hitems)
    cases hanswer
    exact ⟨h₁.table, h₁.named⟩

theorem step_handled [DecidableEq N] {s s' : MarketsState N F} (h : s.Handled)
    {input : MarketsInput N F} (hrun : s.step env input = some s') : s'.Handled := by
  cases input with
  | marketsList data ver shiftDays =>
    cases hrun
    rcases s.applyMarketsListPayload_cases env data ver shiftDays with
      ⟨-, heq⟩ | ⟨rows, -, heq⟩ | ⟨rows, r, -, heq⟩
    · rw [heq]
      exact h
    · rw [heq]
      have hb := batchOf_handled env h rows
      exact ⟨hb.current, hb.currentNamed⟩
    · rw [heq]
      obtain ⟨needed, hfinish⟩ := finishMarketsList_state env (s.adopted env rows) r
      have hadopted := adopted_handled env h rows
      rw [hfinish]
      exact ⟨hadopted.table, hadopted.named⟩
  | marketsIndexes names =>
    cases hrun
    exact ⟨h.table, h.named⟩
  | marketsPrices data shiftDays =>
    cases hrun
    obtain ⟨needed, hw⟩ := applyMarketsPricesPayload_repriced (π := Market.bnMarketName) env
      (fun _ _ _ _ => rfl) (fun _ => rfl) s data shiftDays
    exact Handled.rewrites (s := { s with marketsListRefreshNeeded := needed })
      ⟨h.table, h.named⟩ hw
  | indexesStale =>
    cases hrun
    exact ⟨h.table, h.named⟩
  | balance upd =>
    cases hrun
    exact h.rewrites (applyBalanceUpdate_rewrites env (fun _ _ _ _ => rfl) (fun _ => rfl) s upd)
  | sessionProfits upd full serverToken =>
    obtain ⟨⟨s₁, answer⟩, hanswer, rfl⟩ := map_eq_some_iff.mp hrun
    exact applySessionProfitState_handled env h hanswer
  | newWorld =>
    cases hrun
    refine Handled.rewrites ?_ s.clearSessionProfitsForNewWorld_rewrites
    exact ⟨h.table, h.named⟩

/-- **The handle table is right after every run.** -/
theorem handled_of_run [DecidableEq N] {copyMaxLeverage : Bool} {eps epsM : F}
    {inputs : List (MarketsInput N F)} {s : MarketsState N F}
    (hrun : Run.run (step env) (.new copyMaxLeverage eps epsM) inputs = some s) : s.Handled := by
  refine Run.run_invariant (P := fun _ _ => True) (I := Handled)
    (fun s input s' h _ hstep => step_handled env h hstep) ⟨⟨?_, ?_⟩, ?_⟩
    (Run.along_of_forall (fun _ _ => trivial) _ _) hrun
  · exact fun n handle hn => (nomatch hn)
  · exact fun handle hmem => (nomatch hmem)
  · exact fun n hn => (nomatch hn)

end MarketsState

end MoonProto
