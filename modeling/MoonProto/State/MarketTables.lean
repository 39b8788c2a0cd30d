import MoonProto.Lib.NameTable
import MoonProto.State.Markets

/-!
# The market tables under lists and prices

One invariant says that the four tables agree: the name table is exact for the names of
the markets, the handle table is the name table followed by the market vector, and the
positions of server indexes are those of the names in the latest name list. Writes into
market objects keep it because they keep names. The rows of a list keep it for the
vector that will be published, and a list that was read to its last row publishes it.
-/

namespace MoonProto

open Codec EngineStreamReader List Option Function

variable {N F : Type}

/-! ## What the tables agree on -/

/-- The object at a position of the market vector. -/
def MarketsState.marketAt (s : MarketsState N F) (p : Nat) : Option (Market N F) :=
  (s.markets[p]?).bind (s.objects[·]?)

/-- The name of the object a handle leads to. -/
def nameOf (objects : List (Market N F)) (handle : MarketHandle) : Option N :=
  (objects[handle]?).map (·.bnMarketName)

theorem nameOf_append {objects : List (Market N F)} {handle : MarketHandle} {n : N}
    {m : Market N F} (h : nameOf objects handle = some n) :
    nameOf (objects ++ [m]) handle = some n := by
  obtain ⟨m', hm', rfl⟩ := map_eq_some_iff.mp h
  unfold nameOf
  rw [getElem?_append_left (List.getElem?_eq_some_iff.mp hm').1, hm']
  rfl

/-- The tables of a universe of markets with the given names. -/
structure Lookup (objects : List (Market N F)) (byName : N → Option Nat)
    (handlesByName : N → Option MarketHandle) (markets : List MarketHandle) (names : List N) :
    Prop where
  named : markets.map (nameOf objects) = names.map some
  exact : NameTable.Exact byName names
  handles : ∀ n, handlesByName n = (byName n).bind (markets[·]?)

namespace Lookup

variable {objects : List (Market N F)} {byName : N → Option Nat}
  {handlesByName : N → Option MarketHandle} {markets : List MarketHandle} {names : List N}
  {n : N} {p : Nat} {h : MarketHandle} {m : Market N F}

theorem length_eq (l : Lookup objects byName handlesByName markets names) :
    markets.length = names.length := by
  simpa using congrArg List.length l.named

theorem getElem? (l : Lookup objects byName handlesByName markets names) (p : Nat) :
    (markets[p]?).map (nameOf objects) = (names[p]?).map some := by
  have hp := congrArg (·[p]?) l.named
  simpa using hp

theorem found (l : Lookup objects byName handlesByName markets names) (hn : byName n = some p) :
    ∃ h m, markets[p]? = some h ∧ objects[h]? = some m ∧ m.bnMarketName = n := by
  have hp := l.getElem? p
  rw [(l.exact n p).mp hn, map_some, map_eq_some_iff] at hp
  obtain ⟨h, hh, hname⟩ := hp
  obtain ⟨m, hm, rfl⟩ := map_eq_some_iff.mp hname
  exact ⟨h, m, hh, hm, rfl⟩

theorem listed (l : Lookup objects byName handlesByName markets names) (hp : markets[p]? = some h) :
    ∃ m, objects[h]? = some m ∧ byName m.bnMarketName = some p := by
  have hname := l.getElem? p
  rw [hp, map_some] at hname
  obtain ⟨n, hn, hsome⟩ := map_eq_some_iff.mp hname.symm
  obtain ⟨m, hm, rfl⟩ := map_eq_some_iff.mp hsome.symm
  exact ⟨m, hm, (l.exact _ p).mpr hn⟩

theorem congr_names {objects' : List (Market N F)}
    (l : Lookup objects byName handlesByName markets names)
    (hsame : ∀ h, nameOf objects' h = nameOf objects h) :
    Lookup objects' byName handlesByName markets names := by
  refine ⟨?_, l.exact, l.handles⟩
  rw [← l.named]
  exact map_congr_left fun h _ => hsame h

theorem push [DecidableEq N] (l : Lookup objects byName handlesByName markets names)
    (hn : byName m.bnMarketName = none) :
    Lookup (objects ++ [m]) (Function.update byName m.bnMarketName (some markets.length))
      (Function.update handlesByName m.bnMarketName (some objects.length))
      (markets ++ [objects.length]) (names ++ [m.bnMarketName]) := by
  refine ⟨?_, ?_, ?_⟩
  · have hold : markets.map (nameOf (objects ++ [m])) = markets.map (nameOf objects) := by
      refine map_congr_left fun h hh => ?_
      obtain ⟨p, hp⟩ := mem_iff_getElem?.mp hh
      obtain ⟨m', hm', -⟩ := l.listed hp
      have hname : nameOf objects h = some m'.bnMarketName := congrArg _ hm'
      rw [hname, nameOf_append hname]
    rw [map_append, map_append, hold, l.named]
    simp [nameOf]
  · rw [l.length_eq]
    exact l.exact.push hn
  · intro n
    rcases eq_or_ne n m.bnMarketName with rfl | hne
    · simp
    · rw [update_of_ne hne, update_of_ne hne, l.handles]
      cases hp : byName n with
      | none => rfl
      | some p =>
        have hlt : p < markets.length := by
          rw [l.length_eq]
          exact l.exact.lt_length hp
        rw [bind_some, bind_some, getElem?_append_left hlt]

end Lookup

/-! ## Writes into market objects -/

/-- `s'` is `s` after writes into market objects that leave what `π` reads of them. -/
def MarketsState.Rewrites {α : Type} (π : Market N F → α) (s s' : MarketsState N F) : Prop :=
  ∃ objects, s' = { s with objects := objects } ∧
    ∀ h : MarketHandle, (objects[h]?).map π = (s.objects[h]?).map π

namespace MarketsState

variable {α : Type} {π : Market N F → α} {f : Market N F → Market N F}
  {s s' s'' : MarketsState N F}

theorem map_modify (hf : ∀ m, π (f m) = π m) (objects : List (Market N F))
    (handle h : MarketHandle) :
    ((objects.modify handle f)[h]?).map π = (objects[h]?).map π := by
  rw [getElem?_modify]
  split <;> cases objects[h]? <;> simp [hf]

theorem Rewrites.refl (s : MarketsState N F) : Rewrites π s s := ⟨s.objects, rfl, fun _ => rfl⟩

theorem Rewrites.trans (h : Rewrites π s s') (h' : Rewrites π s' s'') : Rewrites π s s'' := by
  obtain ⟨objects, rfl, hsame⟩ := h
  obtain ⟨objects', rfl, hsame'⟩ := h'
  exact ⟨objects', rfl, fun h => (hsame' h).trans (hsame h)⟩

theorem withMut_rewrites (hf : ∀ m, π (f m) = π m) (s : MarketsState N F)
    (handle : MarketHandle) : Rewrites π s (s.withMut handle f) :=
  ⟨_, rfl, map_modify hf s.objects handle⟩

theorem foldl_rewrites {β : Type} {f : MarketsState N F → β → MarketsState N F}
    (hf : ∀ s a, Rewrites π s (f s a)) (as : List β) : ∀ s, Rewrites π s (as.foldl f s) := by
  induction as with
  | nil => exact Rewrites.refl
  | cons a as ih => exact fun s => (hf s a).trans (ih _)

theorem forEachMarket_rewrites (hf : ∀ m, π (f m) = π m) (s : MarketsState N F) :
    Rewrites π s (s.forEachMarket f) :=
  foldl_rewrites (fun s handle => withMut_rewrites hf s handle) s.markets s

/-- The invariant of the tables, with the names of the markets. -/
structure Coherent (s : MarketsState N F) (names : List N) : Prop where
  lookup : Lookup s.objects s.byName s.handlesByName s.markets names
  positions : s.serverMarketPositions = s.marketIndexes.map s.byName
  cold : s.marketIndexes = [] → s.markets = []

theorem Coherent.rewrites {names : List N} (h : s.Coherent names)
    (hw : Rewrites Market.bnMarketName s s') : s'.Coherent names := by
  obtain ⟨objects, rfl, hsame⟩ := hw
  exact ⟨h.lookup.congr_names hsame, h.positions, h.cold⟩

theorem Coherent.byName_iff {names : List N} (h : s.Coherent names) (n : N) (p : Nat) :
    s.byName n = some p ↔ ∃ m, s.marketAt p = some m ∧ m.bnMarketName = n := by
  constructor
  · intro hn
    obtain ⟨handle, m, hvec, hm, hname⟩ := h.lookup.found hn
    exact ⟨m, by rw [marketAt, hvec, bind_some, hm], hname⟩
  · rintro ⟨m, hm, rfl⟩
    obtain ⟨handle, hvec, hobj⟩ := bind_eq_some_iff.mp hm
    obtain ⟨m', hm', hname⟩ := h.lookup.listed hvec
    rw [hobj, some_inj] at hm'
    rw [hm']
    exact hname

theorem coherent_new (copyMaxLeverage : Bool) (eps epsM : F) :
    (new copyMaxLeverage eps epsM : MarketsState N F).Coherent [] :=
  ⟨⟨rfl, NameTable.exact_nil, fun _ => rfl⟩, rfl, fun _ => rfl⟩

end MarketsState

/-! ## The rows of a list -/

namespace ListBatch

/-- The market vector as it will be published. -/
def vector (b : ListBatch N F) : List MarketHandle := b.pendingMarkets.getD b.state.markets

/-- The handle table as it will be published. -/
def handleTable (b : ListBatch N F) : N → Option MarketHandle :=
  b.pendingHandlesByName.getD b.state.handlesByName

/-- The invariant of the read loop: the tables are those of the vector to be published,
which continues the current one. -/
structure Coherent (b : ListBatch N F) (names : List N) : Prop where
  lookup : Lookup b.state.objects b.state.byName b.handleTable b.vector names
  grows : b.state.markets <+: b.vector
  together : b.pendingMarkets = none → b.pendingHandlesByName = none

theorem coherent_start {s : MarketsState N F} {names : List N} (h : s.Coherent names) :
    (start s).Coherent names :=
  ⟨h.lookup, prefix_rfl, fun _ => rfl⟩

variable {b : ListBatch N F} {names : List N}

theorem Coherent.lookup_eq (h : b.Coherent names) (idx : Nat) :
    (b.state.markets[idx]?).or (b.pendingMarkets.bind (·[idx]?)) = b.vector[idx]? := by
  have hgrows := h.grows
  unfold vector at hgrows ⊢
  cases hp : b.pendingMarkets with
  | none => simp
  | some markets =>
    rw [hp, getD_some] at hgrows
    obtain ⟨rest, rfl⟩ := hgrows
    rw [bind_some, getD_some]
    rcases Nat.lt_or_ge idx b.state.markets.length with hlt | hge
    · rw [getElem?_append_left hlt, getElem?_eq_getElem hlt, some_or]
    · rw [getElem?_eq_none hge, none_or]

/-- What reading `rows` makes of a batch: only market objects and the name table of the
state differ, the names read are noted, no name is lost, every row's name is known
afterwards if new markets are allowed, and without a new name the tables stand. -/
structure Applied (allow rebuild : Bool) (b b' : ListBatch N F) (rows : List (Market N F)) :
    Prop where
  frame : ∃ objects byName, b'.state = { b.state with objects := objects, byName := byName }
  noted : b'.incomingServerNames =
    b.incomingServerNames ++ if rebuild then rows.map (·.bnMarketName) else []
  keeps : ∀ n, (b.state.byName n).isSome → (b'.state.byName n).isSome
  adds : allow = true → ∀ row ∈ rows, (b'.state.byName row.bnMarketName).isSome
  stands : (allow = true → ∀ row ∈ rows, (b.state.byName row.bnMarketName).isSome) →
    b'.state.byName = b.state.byName ∧ b'.pendingMarkets = b.pendingMarkets

theorem Applied.cons {allow rebuild : Bool} {b₁ b₂ : ListBatch N F} {row : Market N F}
    {rows : List (Market N F)}
    (h₁ : b.Applied allow rebuild b₁ [row]) (h₂ : b₁.Applied allow rebuild b₂ rows) :
    b.Applied allow rebuild b₂ (row :: rows) := by
  refine ⟨?_, ?_, fun n hn => h₂.keeps n (h₁.keeps n hn), fun hallow row' hrow => ?_,
    fun hknown => ?_⟩
  · obtain ⟨objects, byName, hs₁⟩ := h₁.frame
    obtain ⟨objects', byName', hs₂⟩ := h₂.frame
    exact ⟨objects', byName', by rw [hs₂, hs₁]⟩
  · rw [h₂.noted, h₁.noted]
    cases rebuild <;> simp
  · rcases mem_cons.mp hrow with rfl | hrow
    · exact h₂.keeps _ (h₁.adds hallow _ (mem_singleton.mpr rfl))
    · exact h₂.adds hallow row' hrow
  · obtain ⟨hname₁, hpend₁⟩ := h₁.stands fun hallow row' hrow =>
      hknown hallow row' (mem_cons.mpr (.inl (mem_singleton.mp hrow)))
    obtain ⟨hname₂, hpend₂⟩ := h₂.stands fun hallow row' hrow => by
      rw [hname₁]
      exact hknown hallow row' (mem_cons_of_mem _ hrow)
    exact ⟨hname₂.trans hname₁, hpend₂.trans hpend₁⟩

theorem newListMarket_name (env : MarketEnv N F) (last : Option UInt16) (row : Market N F) :
    (newListMarket env last row).bnMarketName = row.bnMarketName := by
  unfold newListMarket
  split <;> rfl

section rows

variable [DecidableEq N] (env : MarketEnv N F) (allow rebuild : Bool)

/-- A batch after a row whose name was noted and that changed nothing else. -/
def note (b : ListBatch N F) (rebuild : Bool) (row : Market N F) : ListBatch N F :=
  { b with incomingServerNames :=
      b.incomingServerNames ++ if rebuild then [row.bnMarketName] else [] }

/-- A batch after a row that was merged into the market of a handle. -/
def merged (b : ListBatch N F) (rebuild : Bool) (row : Market N F) (handle : MarketHandle) :
    ListBatch N F :=
  { b.note rebuild row with
    state := b.state.withMut handle
      (mergeListRow env b.state.copyMaxLeverageFromMarketsList b.state.eps row) }

/-- A batch after a row that was added. -/
def added (b : ListBatch N F) (rebuild : Bool) (row : Market N F) : ListBatch N F :=
  { b.note rebuild row with
    state := { b.state with
      objects := b.state.objects ++ [newListMarket env b.state.lastSessionProfitEpoch row]
      byName := Function.update b.state.byName row.bnMarketName (some b.vector.length) }
    pendingMarkets := some (b.vector ++ [b.state.objects.length])
    pendingHandlesByName :=
      some (Function.update b.handleTable row.bnMarketName (some b.state.objects.length)) }

/-- What one row does in any state: it is merged where the tables lead its name, it is
added, or it is only noted. -/
theorem applyRow_shape (b : ListBatch N F) (row : Market N F) :
    (∃ idx handle, b.state.byName row.bnMarketName = some idx ∧
      (b.state.markets[idx]?).or (b.pendingMarkets.bind (·[idx]?)) = some handle ∧
      b.applyRow env allow rebuild row = b.merged env rebuild row handle) ∨
    (b.state.byName row.bnMarketName = none ∧ allow = true ∧
      b.applyRow env allow rebuild row = b.added env rebuild row) ∨
    ((∀ idx, b.state.byName row.bnMarketName = some idx →
        (b.state.markets[idx]?).or (b.pendingMarkets.bind (·[idx]?)) = none) ∧
      (b.state.byName row.bnMarketName = none → allow = false) ∧
      b.applyRow env allow rebuild row = b.note rebuild row) := by
  have hnote : (if rebuild then { b with
        incomingServerNames := b.incomingServerNames ++ [row.bnMarketName] } else b) =
      b.note rebuild row := by
    cases rebuild <;> simp [note]
  have hnames : (b.note rebuild row).state = b.state := rfl
  have hpending : (b.note rebuild row).pendingMarkets = b.pendingMarkets := rfl
  unfold applyRow
  dsimp only
  rw [hnote]
  unfold applyOneMarketFromListPayloadBatch
  rw [hnames, hpending]
  cases hname : b.state.byName row.bnMarketName with
  | some idx =>
    cases hfound : (b.state.markets[idx]?).or (b.pendingMarkets.bind (·[idx]?)) with
    | some handle => exact .inl ⟨idx, handle, rfl, hfound, by simp only [hfound]; rfl⟩
    | none =>
      refine .inr (.inr ⟨?_, nofun, by simp only [hfound]⟩)
      rintro idx' ⟨⟩
      exact hfound
  | none =>
    cases allow with
    | false => exact .inr (.inr ⟨nofun, fun _ => rfl, rfl⟩)
    | true => exact .inr (.inl ⟨rfl, rfl, rfl⟩)

/-- What one row does in a coherent state: it is merged into the market of its name, it
is added, or nothing happens because its market is unknown and new ones are not allowed. -/
theorem applyRow_cases (h : b.Coherent names) (row : Market N F) :
    (∃ handle m, b.state.objects[handle]? = some m ∧ m.bnMarketName = row.bnMarketName ∧
      (b.state.byName row.bnMarketName).isSome ∧
      b.applyRow env allow rebuild row = b.merged env rebuild row handle) ∨
    (b.state.byName row.bnMarketName = none ∧ allow = true ∧
      b.applyRow env allow rebuild row = b.added env rebuild row) ∨
    (b.state.byName row.bnMarketName = none ∧ allow = false ∧
      b.applyRow env allow rebuild row = b.note rebuild row) := by
  rcases applyRow_shape env allow rebuild b row with
    ⟨idx, handle, hname, hfound, heq⟩ | hadded | ⟨hnone, hallow, heq⟩
  · obtain ⟨handle', m, hvec, hobj, hm⟩ := h.lookup.found hname
    rw [h.lookup_eq, hvec, some_inj] at hfound
    subst hfound
    exact .inl ⟨handle', m, hobj, hm, by rw [hname]; rfl, heq⟩
  · exact .inr (.inl hadded)
  · cases hname : b.state.byName row.bnMarketName with
    | some idx =>
      obtain ⟨handle, m, hvec, -, -⟩ := h.lookup.found hname
      have := hnone idx hname
      rw [h.lookup_eq, hvec] at this
      cases this
    | none => exact .inr (.inr ⟨rfl, hallow hname, heq⟩)

/-- The tables after one row: the names are the old ones and, if it is new, the row's. -/
theorem applyRow_coherent (h : b.Coherent names) (row : Market N F) :
    ∃ added, (b.applyRow env allow rebuild row).Coherent (names ++ added) := by
  rcases applyRow_cases env allow rebuild h row with
    ⟨handle, m, -, -, -, heq⟩ | ⟨hnone, -, heq⟩ | ⟨-, -, heq⟩
  · refine ⟨[], ?_⟩
    rw [heq, append_nil]
    have hsame := MarketsState.map_modify (π := Market.bnMarketName)
      (f := mergeListRow env b.state.copyMaxLeverageFromMarketsList b.state.eps row)
      (fun _ => rfl) b.state.objects handle
    exact ⟨h.lookup.congr_names hsame, h.grows, h.together⟩
  · refine ⟨[row.bnMarketName], ?_⟩
    rw [heq]
    refine ⟨?_, ?_, ?_⟩
    · have hpush := h.lookup.push (m := newListMarket env b.state.lastSessionProfitEpoch row)
      rw [newListMarket_name] at hpush
      exact hpush hnone
    · exact h.grows.trans (prefix_append _ _)
    · exact nofun
  · refine ⟨[], ?_⟩
    rw [heq, append_nil]
    exact ⟨h.lookup, h.grows, h.together⟩

/-- **A list row changes no other market**, whatever the rows before it were. -/
theorem applyRow_other (h : b.Coherent names) (row : Market N F) {handle : MarketHandle}
    {m : Market N F} (hm : b.state.objects[handle]? = some m)
    (hne : m.bnMarketName ≠ row.bnMarketName) :
    (b.applyRow env allow rebuild row).state.objects[handle]? = some m := by
  rcases applyRow_cases env allow rebuild h row with
    ⟨handle', m', hobj, hname, -, heq⟩ | ⟨-, -, heq⟩ | ⟨-, -, heq⟩
  · rw [heq]
    have hother : handle' ≠ handle := by
      rintro rfl
      rw [hm] at hobj
      exact hne (by rw [some_inj.mp hobj]; exact hname)
    simp [merged, MarketsState.withMut, hother, hm]
  · rw [heq]
    exact (getElem?_append_left (List.getElem?_eq_some_iff.mp hm).1).trans hm
  · rw [heq]
    exact hm

theorem applyRow_applied (h : b.Coherent names) (row : Market N F) :
    b.Applied allow rebuild (b.applyRow env allow rebuild row) [row] := by
  rcases applyRow_cases env allow rebuild h row with
    ⟨handle, m, -, -, hsome, heq⟩ | ⟨hnone, hallow, heq⟩ | ⟨hnone, hallow, heq⟩
  · rw [heq]
    refine ⟨⟨_, _, rfl⟩, rfl, fun _ => id, fun _ row' hrow => ?_, fun _ => ⟨rfl, rfl⟩⟩
    rw [mem_singleton.mp hrow]
    exact hsome
  · rw [heq]
    refine ⟨⟨_, _, rfl⟩, rfl, fun n hn => ?_, fun _ row' hrow => ?_, fun hknown => ?_⟩
    · rcases eq_or_ne n row.bnMarketName with rfl | hne
      · simp [added]
      · simpa [added, update_of_ne hne] using hn
    · simp [added, mem_singleton.mp hrow]
    · have hsome := hknown hallow row (mem_singleton.mpr rfl)
      rw [hnone] at hsome
      cases hsome
  · rw [heq]
    refine ⟨⟨_, _, rfl⟩, rfl, fun _ => id, fun htrue => ?_, fun _ => ⟨rfl, rfl⟩⟩
    rw [hallow] at htrue
    cases htrue

theorem foldl_applied : ∀ (rows : List (Market N F)) {b : ListBatch N F} {names : List N},
    b.Coherent names →
    b.Applied allow rebuild (rows.foldl (applyRow env allow rebuild) b) rows ∧
      ∃ added, (rows.foldl (applyRow env allow rebuild) b).Coherent (names ++ added)
  | [], b, names, h =>
    ⟨⟨⟨_, _, rfl⟩, by cases rebuild <;> simp, fun _ => id, nofun,
      fun _ => ⟨rfl, rfl⟩⟩, [], by simpa using h⟩
  | row :: rows, b, names, h => by
    obtain ⟨added, h₁⟩ := applyRow_coherent env allow rebuild h row
    obtain ⟨hrest, added', h₂⟩ := foldl_applied rows h₁
    exact ⟨(applyRow_applied env allow rebuild h row).cons hrest, added ++ added', by
      simpa using h₂⟩

end rows

theorem Coherent.publish_eq (h : b.Coherent names) :
    b.publish = { b.state with markets := b.vector, handlesByName := b.handleTable } := by
  unfold publish vector handleTable
  cases hp : b.pendingMarkets with
  | none =>
    rw [h.together hp]
    rfl
  | some markets => rfl

end ListBatch

/-! ## Payloads -/

section payloads

variable (env : MarketEnv N F)

/-- The rows a list payload yields, and what is unread after the last of them, or `none`
when it broke off. -/
def marketRows (ver : UInt16) (shiftDays : F) : Nat → Bytes → List (Market N F) × Option Bytes
  | 0, r => ([], some r)
  | count + 1, r =>
    match readMarket env ver shiftDays r with
    | none => ([], none)
    | some (market, r) =>
      let (rows, rest) := marketRows ver shiftDays count r
      (market :: rows, rest)

/-- The rows of a payload with a count that can be read. -/
def listRows (ver : UInt16) (shiftDays : F) (data : Bytes) :
    Option (List (Market N F) × Option Bytes) :=
  (readCountBounded marketMinWireSize maxMarketsListRows data).map fun (count, r) =>
    marketRows env ver shiftDays count r

theorem MarketsState.finishMarketsList_state (s : MarketsState N F) (r : Bytes) :
    ∃ needed, (s.finishMarketsList env r).1 = { s with marketsListRefreshNeeded := needed } := by
  unfold MarketsState.finishMarketsList
  dsimp only
  split
  · exact ⟨s.marketsListRefreshNeeded, rfl⟩
  · exact ⟨false, rfl⟩

variable [DecidableEq N]

theorem applyRows_eq (ver : UInt16) (shiftDays : F) (allow rebuild : Bool) :
    ∀ (count : Nat) (r : Bytes) (b : ListBatch N F),
    b.applyRows env ver shiftDays allow rebuild count r =
      ((marketRows env ver shiftDays count r).1.foldl (ListBatch.applyRow env allow rebuild) b,
        (marketRows env ver shiftDays count r).2)
  | 0, _, _ => rfl
  | count + 1, r, b => by
    unfold ListBatch.applyRows marketRows
    cases readMarket env ver shiftDays r with
    | none => rfl
    | some read => exact applyRows_eq ver shiftDays allow rebuild count read.2 _

namespace MarketsState

/-- The batch after all rows of a list. -/
def batchOf (s : MarketsState N F) (rows : List (Market N F)) : ListBatch N F :=
  rows.foldl (ListBatch.applyRow env s.allowNewMarkets s.rebuildsServerIndexes) (.start s)

/-- The state after the market rows of a list that was read to its last row. -/
def adopted (s : MarketsState N F) (rows : List (Market N F)) : MarketsState N F :=
  let b := s.batchOf env rows
  if s.rebuildsServerIndexes then
    { b.publish.replaceMarketIndexesCow b.incomingServerNames with indexesSynchronized := true }
  else b.publish

/-- What a list payload does: nothing, the rows before the one that broke off, or all. -/
theorem applyMarketsListPayload_cases (s : MarketsState N F) (data : Bytes) (ver : UInt16)
    (shiftDays : F) :
    (listRows env ver shiftDays data = none ∧
      s.applyMarketsListPayload env data ver shiftDays = (s, none)) ∨
    (∃ rows, listRows env ver shiftDays data = some (rows, none) ∧
      s.applyMarketsListPayload env data ver shiftDays = ((s.batchOf env rows).state, none)) ∨
    (∃ rows r, listRows env ver shiftDays data = some (rows, some r) ∧
      s.applyMarketsListPayload env data ver shiftDays =
        (s.adopted env rows).finishMarketsList env r) := by
  unfold applyMarketsListPayload listRows
  cases readCountBounded marketMinWireSize maxMarketsListRows data with
  | none => exact .inl ⟨rfl, rfl⟩
  | some head =>
    obtain ⟨count, r⟩ := head
    dsimp only [map_some]
    rw [applyRows_eq]
    cases hrest : (marketRows env ver shiftDays count r).2 with
    | none => exact .inr (.inl ⟨_, by rw [← hrest], rfl⟩)
    | some rest => exact .inr (.inr ⟨_, rest, by rw [← hrest], rfl⟩)

variable {s : MarketsState N F} {names : List N} {rows : List (Market N F)}

theorem batchOf_spec (h : s.Coherent names) (rows : List (Market N F)) :
    (ListBatch.start s).Applied s.allowNewMarkets s.rebuildsServerIndexes (s.batchOf env rows)
      rows ∧ ∃ added, (s.batchOf env rows).Coherent (names ++ added) :=
  ListBatch.foldl_applied env _ _ rows (ListBatch.coherent_start h)

/-- Rows that name known markets only, or that come while new markets are not allowed,
change market objects and no table. -/
theorem batchOf_known (h : s.Coherent names)
    (hknown : s.allowNewMarkets = true → ∀ row ∈ rows, (s.byName row.bnMarketName).isSome) :
    ∃ names', (s.batchOf env rows).state.Coherent names' := by
  obtain ⟨happ, added, hb⟩ := batchOf_spec env h rows
  obtain ⟨hnames, hpending⟩ := happ.stands hknown
  obtain ⟨objects, byName, hstate⟩ := happ.frame
  have hlookup := hb.lookup
  unfold ListBatch.vector ListBatch.handleTable at hlookup
  rw [hb.together hpending, hpending] at hlookup
  refine ⟨_, hlookup, ?_, ?_⟩
  · rw [hnames, hstate]
    exact h.positions
  · rw [hstate]
    exact h.cold

/-- A list that was read to its last row keeps the tables coherent, may bring the server's names
and, if new markets are allowed, makes every market it lists known. -/
theorem adopted_coherent (h : s.Coherent names)
    (hempty : rows = [] → s.rebuildsServerIndexes = true → s.markets = []) :
    (∃ names', (s.adopted env rows).Coherent names') ∧
    (s.adopted env rows).marketIndexes =
      (bif s.rebuildsServerIndexes then rows.map (·.bnMarketName) else s.marketIndexes) ∧
    (s.allowNewMarkets = true →
      ∀ row ∈ rows, ((s.adopted env rows).byName row.bnMarketName).isSome) := by
  obtain ⟨happ, added, hb⟩ := batchOf_spec env h rows
  unfold adopted
  dsimp only
  rw [hb.publish_eq]
  cases hrebuild : s.rebuildsServerIndexes with
  | true =>
    have hnoted := happ.noted
    rw [hrebuild, if_pos rfl] at hnoted
    refine ⟨⟨_, hb.lookup, rfl, fun hnone => ?_⟩, hnoted, happ.adds⟩
    -- an empty name list comes from a payload without rows
    have hrows : rows = [] := by
      have hmap : rows.map (·.bnMarketName) = [] := (hnoted.symm.trans hnone : _)
      exact map_eq_nil_iff.mp hmap
    subst hrows
    exact hempty rfl hrebuild
  | false =>
    have hallow : s.allowNewMarkets = false := by
      unfold rebuildsServerIndexes at hrebuild
      exact (Bool.or_eq_false_iff.mp hrebuild).1
    obtain ⟨hnames, hpending⟩ := happ.stands fun htrue => absurd htrue (by rw [hallow]; decide)
    obtain ⟨objects, byName, hstate⟩ := happ.frame
    refine ⟨?_, (congrArg marketIndexes hstate :), fun htrue => absurd htrue (by simp [hallow])⟩
    have hvector : (s.batchOf env rows).vector = s.markets := by
      unfold ListBatch.vector
      rw [hpending, hstate]
      rfl
    refine ⟨_, hb.lookup, ?_, ?_⟩
    · show (s.batchOf env rows).state.serverMarketPositions =
        (s.batchOf env rows).state.marketIndexes.map (s.batchOf env rows).state.byName
      rw [hnames, hstate]
      exact h.positions
    · show (s.batchOf env rows).state.marketIndexes = [] → (s.batchOf env rows).vector = []
      rw [hvector, hstate]
      exact h.cold

end MarketsState

end payloads

/-! ## Prices -/

namespace MarketsState

variable (env : MarketEnv N F) {s : MarketsState N F} {names : List N}

theorem applyOneMarketPriceUpdate_cases (sendFunding : Bool) (s : MarketsState N F)
    (p : MarketPriceUpdate F) :
    (∃ idx handle, s.localPosForServerIndex p.mIndex = some idx ∧ s.markets[idx]? = some handle ∧
      s.applyOneMarketPriceUpdate env sendFunding p =
        s.withMut handle (priceRow env p sendFunding s.epsM)) ∨
    ∃ needed, s.applyOneMarketPriceUpdate env sendFunding p =
      { s with marketsListRefreshNeeded := needed } := by
  unfold applyOneMarketPriceUpdate
  cases hpos : s.localPosForServerIndex p.mIndex with
  | some idx =>
    cases hh : s.markets[idx]? with
    | some handle => exact .inl ⟨idx, handle, rfl, hh, by simp only [hh]⟩
    | none => exact .inr ⟨s.marketsListRefreshNeeded, by simp only [hh]⟩
  | none =>
    refine .inr ?_
    dsimp only
    split
    · exact ⟨true, rfl⟩
    · exact ⟨s.marketsListRefreshNeeded, rfl⟩

/-- `s'` is `s` after writes that leave what `π` reads of the markets; that a market is
missing may have been noted. -/
def Repriced {α : Type} (π : Market N F → α) (s s' : MarketsState N F) : Prop :=
  ∃ needed, Rewrites π { s with marketsListRefreshNeeded := needed } s'

theorem Rewrites.repriced {α : Type} {π : Market N F → α} {s' : MarketsState N F}
    (hw : Rewrites π s s') : Repriced π s s' :=
  ⟨s.marketsListRefreshNeeded, hw⟩

theorem Repriced.trans {α : Type} {π : Market N F → α} {s' s'' : MarketsState N F}
    (h : Repriced π s s') (h' : Repriced π s' s'') : Repriced π s s'' := by
  obtain ⟨needed, objects, rfl, hsame⟩ := h
  obtain ⟨needed', objects', rfl, hsame'⟩ := h'
  exact ⟨needed', objects', rfl, fun h => (hsame' h).trans (hsame h)⟩

theorem Coherent.repriced {s' : MarketsState N F} (h : s.Coherent names)
    (hw : Repriced Market.bnMarketName s s') : s'.Coherent names := by
  obtain ⟨needed, hw⟩ := hw
  exact Coherent.rewrites (s := { s with marketsListRefreshNeeded := needed })
    ⟨h.lookup, h.positions, h.cold⟩ hw

section rows

variable {α : Type} {π : Market N F → α}
  (hπ : ∀ (p : MarketPriceUpdate F) sendFunding epsM m,
    π (MarketsState.priceRow env p sendFunding epsM m) = π m)

include hπ

theorem priceRow_repriced (sendFunding : Bool) (s : MarketsState N F) (p : MarketPriceUpdate F) :
    Repriced π s (s.applyOneMarketPriceUpdate env sendFunding p) := by
  rcases applyOneMarketPriceUpdate_cases env sendFunding s p with
    ⟨idx, handle, -, -, heq⟩ | ⟨needed, heq⟩
  · rw [heq]
    exact (withMut_rewrites (hπ p sendFunding s.epsM) s handle).repriced
  · rw [heq]
    exact ⟨needed, Rewrites.refl _⟩

theorem priceRows_repriced (sendFunding : Bool) (rows : List (MarketPriceUpdate F)) :
    ∀ s : MarketsState N F,
      Repriced π s (rows.foldl (applyOneMarketPriceUpdate env sendFunding) s) := by
  induction rows with
  | nil => exact fun s => (Rewrites.refl s).repriced
  | cons row rows ih =>
    exact fun s => (priceRow_repriced env hπ sendFunding s row).trans (ih _)

theorem applyPriceRows_repriced (sendFunding : Bool) (shiftDays : F) :
    ∀ (count : Nat) (r : Bytes) (s : MarketsState N F),
      Repriced π s (s.applyPriceRows env sendFunding shiftDays count r).1
  | 0, _, s => (Rewrites.refl s).repriced
  | count + 1, r, s => by
    unfold applyPriceRows
    cases readMarketPriceUpdate env sendFunding shiftDays r with
    | none => exact (Rewrites.refl s).repriced
    | some read =>
      exact (priceRow_repriced env hπ sendFunding s read.1).trans
        (applyPriceRows_repriced sendFunding shiftDays count read.2 _)

theorem applyMarketsPricesPayload_repriced (hmark : ∀ m : Market N F,
      π { m with price := { m.price with markPriceFound := false } } = π m)
    (s : MarketsState N F) (data : Bytes) (shiftDays : F) :
    Repriced π s (s.applyMarketsPricesPayload env data shiftDays).1 := by
  have hcleared := (forEachMarket_rewrites hmark s).repriced
  unfold applyMarketsPricesPayload
  dsimp only
  split
  · exact hcleared
  rename_i sendFunding count r _
  have hrows := hcleared.trans (applyPriceRows_repriced env hπ sendFunding shiftDays count r _)
  split
  · rename_i s' hrun
    rw [hrun] at hrows
    exact hrows
  · rename_i s' r' hrun
    rw [hrun] at hrows
    split
    · exact hrows
    · exact hrows

end rows

/-- In a coherent state a server index leads to the market of its name, and nowhere while
the name list is stale. -/
theorem Coherent.localPos_eq (h : s.Coherent names) (mIndex : UInt16) :
    s.localPosForServerIndex mIndex =
      if s.indexesSynchronized then (s.marketIndexes[mIndex.toNat]?).bind s.byName else none := by
  unfold localPosForServerIndex
  cases s.indexesSynchronized with
  | true =>
    simp only [if_true, h.positions, getElem?_map]
    cases s.marketIndexes[mIndex.toNat]? <;> rfl
  | false =>
    by_cases hcold : s.marketIndexes = []
    · simp [h.cold hcold]
    · simp [hcold]

/-- **A price row changes no other market** than the one its index names. -/
theorem Coherent.priceRow_other (h : s.Coherent names) (sendFunding : Bool)
    (p : MarketPriceUpdate F) {handle : MarketHandle} {m : Market N F}
    (hm : s.objects[handle]? = some m)
    (hchanged : (s.applyOneMarketPriceUpdate env sendFunding p).objects[handle]? ≠ some m) :
    s.indexesSynchronized = true ∧ s.marketIndexes[p.mIndex.toNat]? = some m.bnMarketName := by
  rcases applyOneMarketPriceUpdate_cases env sendFunding s p with
    ⟨idx, handle', hpos, hvec, heq⟩ | ⟨needed, heq⟩
  · rw [heq] at hchanged
    have hsame : handle' = handle := by
      by_contra hother
      exact hchanged (by simp [withMut, hother, hm])
    subst hsame
    rw [h.localPos_eq] at hpos
    cases hsync : s.indexesSynchronized with
    | false => simp [hsync] at hpos
    | true =>
      rw [hsync, if_pos rfl] at hpos
      obtain ⟨n, hn, hname⟩ := bind_eq_some_iff.mp hpos
      obtain ⟨handle, m', hvec', hm', rfl⟩ := h.lookup.found hname
      rw [hvec, some_inj] at hvec'
      subst hvec'
      rw [hm, some_inj] at hm'
      subst hm'
      exact ⟨rfl, hn⟩
  · rw [heq] at hchanged
    exact absurd hm hchanged

end MarketsState

end MoonProto
