import MoonProto.State.MarketLookup

/-!
# Session profits of the markets

What a session-profit packet makes of the market objects, and what lists, prices and
balances leave of it. A packet is checked as a whole before it is written, so its rows
reach the markets their indexes mean; a market that no row reaches keeps what it had.
-/

namespace MoonProto

open MarketsState List Option

variable {N F : Type}

/-! ## The server's side -/

/-- The states of the session tokens by number, and the market each index means. -/
structure ProfitServer (N F : Type) where
  states : UInt64 → Nat → N → F
  meaning : UInt64 → UInt16 → Option N

namespace ProfitServer

variable (srv : ProfitServer N F)

/-- A row for the market. -/
def Mentions (token : UInt64) (items : List (MarketSessionProfitItem F)) (n : N) : Prop :=
  ∃ item ∈ items, srv.meaning token item.marketIndex = some n

/-- Every row has its market's value in the state of that number. -/
def Carries (token : UInt64) (number : Nat) (items : List (MarketSessionProfitItem F)) : Prop :=
  ∀ item ∈ items, ∃ n, srv.meaning token item.marketIndex = some n ∧
    item.sessionProfit = srv.states token number n

/-- A packet of the server: a full one mentions every value that is not zero, another one
every value that differs from the number before. -/
def Packet (zero : F) (token : UInt64) (full : Bool) (number : Nat)
    (items : List (MarketSessionProfitItem F)) : Prop :=
  srv.Carries token number items ∧
  if full then ∀ n, srv.states token number n ≠ zero → srv.Mentions token items n
  else ∃ before, number = before + 1 ∧
    ∀ n, srv.states token number n ≠ srv.states token before n → srv.Mentions token items n

end ProfitServer

/-! ## What the markets hold -/

/-- The markets have the values `S`, and markets that are not known have none. -/
structure MarketsState.Profits (zero : F) (S : N → F) (s : MarketsState N F) : Prop where
  known : ∀ handle ∈ s.markets, ∀ m, s.objects[handle]? = some m →
    m.sessionProfit = some (S m.bnMarketName)
  unknown : ∀ n, s.byName n = none → S n = zero

/-- What the session profits read of a market. -/
def profitView (m : Market N F) : N × Option F := (m.bnMarketName, m.sessionProfit)

variable {zero : F} {S S' : N → F} {s s' : MarketsState N F} {names : List N}

theorem MarketsState.Profits.repriced (h : s.Profits zero S) (hw : Repriced profitView s s') :
    s'.Profits zero S := by
  obtain ⟨needed, objects, rfl, hsame⟩ := hw
  refine ⟨fun handle hmem m hm => ?_, h.unknown⟩
  have hview := hsame handle
  rw [show objects[handle]? = some m from hm, map_some] at hview
  obtain ⟨m', hm', hview'⟩ := map_eq_some_iff.mp hview.symm
  obtain ⟨hname, hprofit⟩ := Prod.mk.injEq .. ▸ hview'
  rw [← hname, ← hprofit]
  exact h.known handle hmem m' hm'

/-! ## A list -/

section lists

variable [DecidableEq N] (env : MarketEnv N F)

/-- The same of the markets to be published. -/
structure ListBatch.Profits (zero : F) (S : N → F) (b : ListBatch N F) : Prop where
  known : ∀ handle ∈ b.vector, ∀ m, b.state.objects[handle]? = some m →
    m.sessionProfit = some (S m.bnMarketName)
  unknown : ∀ n, b.state.byName n = none → S n = zero

theorem ListBatch.applyRow_profits {b : ListBatch N F} (h : b.Coherent names)
    (hlast : b.state.lastSessionProfitEpoch.isSome) (hp : b.Profits env.zero S)
    (allow rebuild : Bool) (row : Market N F) :
    (b.applyRow env allow rebuild row).Profits env.zero S := by
  rcases applyRow_cases env allow rebuild h row with
    ⟨handle, m, -, -, -, heq⟩ | ⟨hnone, -, heq⟩ | ⟨-, -, heq⟩
  · rw [heq]
    refine ⟨fun handle' hmem m' hm' => ?_, hp.unknown⟩
    have hview := map_modify (π := profitView)
      (f := mergeListRow env b.state.copyMaxLeverageFromMarketsList b.state.eps row)
      (fun _ => rfl) b.state.objects handle handle'
    rw [show (b.state.objects.modify handle _)[handle']? = some m' from hm', map_some]
      at hview
    obtain ⟨m'', hm'', hview'⟩ := map_eq_some_iff.mp hview.symm
    obtain ⟨hname, hprofit⟩ := Prod.mk.injEq .. ▸ hview'
    rw [← hname, ← hprofit]
    exact hp.known handle' hmem m'' hm''
  · rw [heq]
    constructor
    · intro handle hmem m hm
      rcases Nat.lt_or_ge handle b.state.objects.length with hlt | hge
      · rcases mem_append.mp hmem with hold | hnew
        · exact hp.known handle hold m ((getElem?_append_left hlt).symm.trans hm)
        · exact absurd (mem_singleton.mp hnew) (Nat.ne_of_lt hlt)
      · -- the new object: a market that was not known has no value
        have hm' : m = newListMarket env b.state.lastSessionProfitEpoch row := by
          have := (getElem?_append_right hge).symm.trans hm
          rw [getElem?_singleton] at this
          split at this
          · exact (some_inj.mp this).symm
          · cases this
        subst hm'
        rw [ListBatch.newListMarket_name, hp.unknown _ hnone]
        unfold newListMarket
        rw [if_pos hlast]
        rfl
    · intro n hn
      rcases eq_or_ne n row.bnMarketName with rfl | hne
      · exact hp.unknown _ hnone
      · exact hp.unknown n ((Function.update_of_ne hne _ _).symm.trans hn)
  · rw [heq]
    exact ⟨hp.known, hp.unknown⟩

theorem ListBatch.foldl_profits (allow rebuild : Bool) : ∀ (rows : List (Market N F))
    {b : ListBatch N F} {names : List N}, b.Coherent names →
    b.state.lastSessionProfitEpoch.isSome → b.Profits env.zero S →
    (rows.foldl (applyRow env allow rebuild) b).Profits env.zero S
  | [], _, _, _, _, hp => hp
  | row :: rows, b, names, h, hlast, hp => by
    obtain ⟨added, h₁⟩ := applyRow_coherent env allow rebuild h row
    obtain ⟨objects, byName, hstate⟩ := (applyRow_applied env allow rebuild h row).frame
    have hp₁ := applyRow_profits env h hlast hp allow rebuild row
    refine foldl_profits allow rebuild rows h₁ ?_ hp₁
    rw [hstate]
    exact hlast

/-- The fields of the replica itself are the same. -/
def MarketsState.SameSession (s s' : MarketsState N F) : Prop :=
  s'.lastSessionProfitEpoch = s.lastSessionProfitEpoch ∧
  s'.sessionProfitServerToken = s.sessionProfitServerToken ∧
  s'.sessionProfitReady = s.sessionProfitReady

theorem MarketsState.batchOf_session (h : s.Coherent names) (rows : List (Market N F)) :
    s.SameSession (s.batchOf env rows).state := by
  obtain ⟨happ, -⟩ := batchOf_spec env h rows
  obtain ⟨objects, byName, hstate⟩ := happ.frame
  rw [hstate]
  exact ⟨rfl, rfl, rfl⟩

theorem MarketsState.adopted_eq (h : s.Coherent names) (rows : List (Market N F)) :
    let b := s.batchOf env rows
    (s.adopted env rows).objects = b.state.objects ∧ (s.adopted env rows).markets = b.vector ∧
    (s.adopted env rows).byName = b.state.byName ∧ s.SameSession (s.adopted env rows) := by
  obtain ⟨-, added, hb⟩ := batchOf_spec env h rows
  unfold adopted
  dsimp only
  rw [hb.publish_eq]
  split
  · exact ⟨rfl, rfl, rfl, batchOf_session env h rows⟩
  · exact ⟨rfl, rfl, rfl, batchOf_session env h rows⟩

/-- A market list leaves the replica as it is: known markets keep their value, and one
that is added had none. -/
theorem MarketsState.applyMarketsListPayload_profits (h : s.Coherent names) {data : Bytes}
    {ver : UInt16} {shiftDays : F} (hok : s.Adoptable env (.marketsList data ver shiftDays)) :
    s.SameSession (s.applyMarketsListPayload env data ver shiftDays).1 ∧
    (s.lastSessionProfitEpoch.isSome → s.Profits env.zero S →
      (s.applyMarketsListPayload env data ver shiftDays).1.Profits env.zero S) := by
  have hrows : ∀ rows, s.lastSessionProfitEpoch.isSome → s.Profits env.zero S →
      (s.batchOf env rows).Profits env.zero S := fun rows hlast hp =>
    ListBatch.foldl_profits env _ _ rows (ListBatch.coherent_start h) hlast
      ⟨hp.known, hp.unknown⟩
  rcases s.applyMarketsListPayload_cases env data ver shiftDays with
    ⟨-, heq⟩ | ⟨rows, hread, heq⟩ | ⟨rows, r, hread, heq⟩
  · rw [heq]
    exact ⟨⟨rfl, rfl, rfl⟩, fun _ hp => hp⟩
  · rw [heq]
    obtain ⟨happ, -⟩ := batchOf_spec env h rows
    obtain ⟨-, hpending⟩ := happ.stands (hok rows none hread)
    refine ⟨batchOf_session env h rows, fun hlast hp => ?_⟩
    obtain ⟨hknown, hunknown⟩ := hrows rows hlast hp
    unfold ListBatch.vector at hknown
    rw [hpending] at hknown
    exact ⟨hknown, hunknown⟩
  · rw [heq]
    obtain ⟨needed, hfinish⟩ := finishMarketsList_state env (s.adopted env rows) r
    obtain ⟨hobjects, hmarkets, hbyName, hsession⟩ := adopted_eq env h rows
    rw [hfinish]
    refine ⟨hsession, fun hlast hp => ?_⟩
    obtain ⟨hknown, hunknown⟩ := hrows rows hlast hp
    rw [← hobjects, ← hmarkets] at hknown
    rw [← hbyName] at hunknown
    exact ⟨hknown, hunknown⟩

end lists

/-! ## A packet -/

namespace MarketsState

/-- After the rows of a packet with values `S`, a market has its value or it is as before
and no row leads to it. -/
theorem applySessionProfitItems_profits : ∀ (items : List (MarketSessionProfitItem F))
    {s s' : MarketsState N F}, s.Coherent names →
    (∀ item ∈ items, s.hasServerMarketIndex item.marketIndex = true) →
    (∀ item ∈ items, ∀ n, s.marketIndexes[item.marketIndex.toNat]? = some n →
      item.sessionProfit = S n) →
    s.applySessionProfitItems items = some s' → ∀ handle m, s'.objects[handle]? = some m →
      m.sessionProfit = some (S m.bnMarketName) ∨
      (s.objects[handle]? = some m ∧ ∀ item ∈ items, s.marketByIndex item.marketIndex ≠ some handle)
  | [], s, s', _, _, _, hrun, handle, m, hm => by
    cases hrun
    exact .inr ⟨hm, fun item hitem => (nomatch hitem)⟩
  | item :: items, s, s', h, hvalid, hvalue, hrun, handle, m, hm => by
    obtain ⟨target, mt, htarget, hmt, hname, -⟩ := h.marketByIndex (hvalid item mem_cons_self)
    have hw := withMut_rewrites (π := Market.bnMarketName)
      (f := fun m => { m with sessionProfit := some item.sessionProfit }) (fun _ => rfl) s target
    rw [applySessionProfitItems, htarget] at hrun
    rcases applySessionProfitItems_profits items (h.rewrites hw)
      (fun item' hitem => (hw.hasServerMarketIndex _).trans
        (hvalid item' (mem_cons_of_mem _ hitem)))
      (fun item' hitem => hvalue item' (mem_cons_of_mem _ hitem)) hrun handle m hm with
      hdone | ⟨hbefore, hnone⟩
    · exact .inl hdone
    · rcases eq_or_ne target handle with rfl | hother
      · -- the row wrote this market last
        left
        have hwritten : some { mt with sessionProfit := some item.sessionProfit } = some m := by
          rw [← hbefore]
          simp [withMut, hmt]
        cases hwritten
        rw [hvalue item mem_cons_self mt.bnMarketName hname]
      · refine .inr ⟨?_, fun item' hitem => ?_⟩
        · rw [← hbefore]
          simp [withMut, hother]
        · rcases mem_cons.mp hitem with rfl | hitem
          · rw [htarget]
            exact fun heq => hother (some_inj.mp heq)
          · exact hnone item' hitem

theorem forEachMarket_all {Q : Market N F → Prop} {f : Market N F → Market N F}
    (hf : ∀ m, Q (f m)) (s : MarketsState N F) :
    ∀ handle ∈ s.markets, ∀ m, (s.forEachMarket f).objects[handle]? = some m → Q m := by
  have hfold : ∀ (handles : List MarketHandle) (s : MarketsState N F) (handle : MarketHandle),
      handle ∈ handles ∨ (∀ m, s.objects[handle]? = some m → Q m) →
      ∀ m, (handles.foldl (fun s handle => s.withMut handle f) s).objects[handle]? = some m →
        Q m := by
    intro handles
    induction handles with
    | nil =>
      rintro s handle (hmem | hdone) m hm
      · cases hmem
      · exact hdone m hm
    | cons first handles ih =>
      intro s handle hor
      refine ih _ handle ?_
      rcases eq_or_ne first handle with rfl | hne
      · right
        intro m hm
        simp only [withMut, getElem?_modify_eq, Option.map_eq_map, map_eq_some_iff] at hm
        obtain ⟨m', -, rfl⟩ := hm
        exact hf m'
      · rcases hor with hmem | hdone
        · rcases mem_cons.mp hmem with rfl | hmem
          · exact absurd rfl hne
          · exact .inl hmem
        · right
          intro m hm
          refine hdone m ?_
          rw [← hm]
          simp [withMut, hne]
  exact fun handle hmem => hfold s.markets s handle (.inl hmem)

end MarketsState

section packets

variable (env : MarketEnv N F) (srv : ProfitServer N F)

/-- The adopted name list is one of the server of the token. -/
def MarketsState.CurrentFor (token : UInt64) (s : MarketsState N F) : Prop :=
  s.indexesSynchronized = true → ∀ (i : UInt16) n,
    s.marketIndexes[i.toNat]? = some n → srv.meaning token i = some n

variable {srv} {token : UInt64} {number : Nat} {items : List (MarketSessionProfitItem F)}

/-- A market a validated packet mentions is known, and a row leads to it. -/
theorem ProfitServer.Mentions.row {n : N} (hmention : srv.Mentions token items n)
    (h : s.Coherent names) (hsync : s.indexesSynchronized = true) (hcur : s.CurrentFor srv token)
    (hvalid : ∀ item ∈ items, s.hasServerMarketIndex item.marketIndex = true) :
    ∃ item ∈ items, ∃ handle, s.marketByIndex item.marketIndex = some handle ∧
      s.handlesByName n = some handle := by
  obtain ⟨item, hitem, hmeans⟩ := hmention
  obtain ⟨handle, m, hhandle, -, hname, htable⟩ := h.marketByIndex (hvalid item hitem)
  have heq : m.bnMarketName = n := by
    have := hcur hsync item.marketIndex _ hname
    rw [hmeans, some_inj] at this
    exact this.symm
  rw [heq] at htable
  exact ⟨item, hitem, handle, hhandle, htable⟩

/-- What a market that a packet does not mention has before its rows are written is what
it has in the state of that number. -/
theorem MarketsState.cleared_unmentioned {full : Bool} {n : N}
    (hpacket : srv.Packet env.zero token full number items)
    (hbefore : ∀ before, full = false → number = before + 1 →
      s.Profits env.zero (srv.states token before))
    (hnot : ¬ srv.Mentions token items n) :
    (∀ handle ∈ s.markets, ∀ m, m.bnMarketName = n →
      (s.clearedFor env full).objects[handle]? = some m →
      m.sessionProfit = some (srv.states token number n)) ∧
    (s.byName n = none → srv.states token number n = env.zero) := by
  obtain ⟨-, hmentions⟩ := hpacket
  cases full with
  | true =>
    have hzero : srv.states token number n = env.zero :=
      not_not.mp fun hne => hnot (hmentions n hne)
    refine ⟨fun handle hmem m _ hm => ?_, fun _ => hzero⟩
    rw [hzero]
    exact forEachMarket_all (Q := fun m => m.sessionProfit = some env.zero)
      (f := fun m => { m with sessionProfit := some env.zero }) (fun _ => rfl) s handle hmem m hm
  | false =>
    obtain ⟨before, hnumber, hchanged⟩ := hmentions
    have hp := hbefore before rfl hnumber
    have hsame : srv.states token number n = srv.states token before n :=
      not_not.mp fun hne => hnot (hchanged n hne)
    rw [hsame]
    refine ⟨fun handle hmem m hname hm => ?_, hp.unknown n⟩
    rw [← hname]
    exact hp.known handle hmem m hm

/-- **A packet that is applied** leaves the values of its number, if a full one or the
next one. -/
theorem MarketsState.profits_of_items {full : Bool} (h : s.Coherent names)
    (hsync : s.indexesSynchronized = true) (hcur : s.CurrentFor srv token)
    (hvalid : ∀ item ∈ items, s.hasServerMarketIndex item.marketIndex = true)
    (hpacket : srv.Packet env.zero token full number items)
    (hbefore : ∀ before, full = false → number = before + 1 →
      s.Profits env.zero (srv.states token before))
    (hrun : (s.clearedFor env full).applySessionProfitItems items = some s')
    (hw' : Rewrites Market.bnMarketName s s') :
    s'.Profits env.zero (srv.states token number) := by
  have hw := clearedFor_rewrites env full s
  have h₁ := h.rewrites hw
  obtain ⟨hmarkets, hhandles, hindexes, hbyIndex⟩ := hw.tables
  have hvalues : ∀ item ∈ items, ∀ n,
      (s.clearedFor env full).marketIndexes[item.marketIndex.toNat]? = some n →
      item.sessionProfit = srv.states token number n := by
    intro item hitem n hn
    obtain ⟨n', hmeans, hvalue⟩ := hpacket.1 item hitem
    rw [hindexes] at hn
    rw [hcur hsync _ n hn, some_inj] at hmeans
    rw [hvalue, hmeans]
  obtain ⟨objects', rfl, hsame'⟩ := hw'
  constructor
  · intro handle hmem m hm
    rcases applySessionProfitItems_profits items h₁
      (fun item hitem => (hw.hasServerMarketIndex _).trans (hvalid item hitem)) hvalues hrun
      handle m hm with hdone | ⟨hm₁, hnone⟩
    · exact hdone
    · refine (cleared_unmentioned env hpacket hbefore fun hmention => ?_).1 handle hmem m rfl hm₁
      -- a row for this market would lead to this handle
      obtain ⟨item, hitem, handle', hhandle, htable⟩ := hmention.row h hsync hcur hvalid
      have hhandle' := h₁.handle_eq (hmarkets ▸ hmem) hm₁
      rw [hhandles, htable, some_inj] at hhandle'
      rw [← hbyIndex, hhandle'] at hhandle
      exact hnone item hitem hhandle
  · intro n hn
    refine (cleared_unmentioned env hpacket hbefore fun hmention => ?_).2 hn
    obtain ⟨item, hitem, handle, -, htable⟩ := hmention.row h hsync hcur hvalid
    rw [h.lookup.handles, show s.byName n = none from hn] at htable
    cases htable

end packets

end MoonProto
