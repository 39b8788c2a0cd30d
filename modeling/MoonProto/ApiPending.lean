import Mathlib.Data.List.Perm.Basic
import Mathlib.Data.List.Perm.Subperm

/-!
# Waiting for API responses

`api_pending.rs`. A request registers a channel under its uid. The receive phase takes the
waiter of a response out of the registry, builds the response outside the lock, and then sends
it or puts the waiter back. Other calls come in between, and as each call reads the clock before
it takes the lock, the times need not be in order.
-/

namespace MoonProto

open List

open List (Subperm)

structure EngineResponse where
  requestUid : UInt64
  data : List UInt8

/-- `tx` is the number of the channel. -/
structure PendingEntry where
  tx : Nat
  deadline : Nat

abbrev Waiter := UInt64 × PendingEntry

/-- The registry, with the uid of every channel so far, the waiters that calls have taken, and
what was sent into the channels. -/
structure ApiPending where
  map : List Waiter
  lastSweep : Nat
  channels : List UInt64
  taken : List Waiter
  sent : List (Nat × EngineResponse)

/-- The calls, each up to the end of its lock. -/
inductive ApiCall
  | register (uid : UInt64) (deadline now : Nat)
  | remove (uid : UInt64)
  | take (uid : UInt64) (now : Nat)
  | finish (call : Nat) (built : Option EngineResponse) (now : Nat)

namespace ApiPending

def new (now : Nat) : ApiPending := ⟨[], now, [], [], []⟩

/-- `sweep_expired_locked` without `force`; the interval is a second in nanoseconds. -/
@[grind] def sweepExpiredLocked (p : ApiPending) (now : Nat) : ApiPending :=
  if now - p.lastSweep < 1000000000 then p
  else { p with map := p.map.filter fun x => now < x.2.deadline, lastSweep := now }

@[grind] def remove (p : ApiPending) (uid : UInt64) : ApiPending :=
  { p with map := p.map.filter fun x => x.1 != uid }

/-- `register_with_timeout`, for whatever deadline. -/
@[grind] def registerWithTimeout (p : ApiPending) (uid : UInt64) (deadline now : Nat) :
    ApiPending :=
  let p := (p.sweepExpiredLocked now).remove uid
  { p with
    map := (uid, ⟨p.channels.length, deadline⟩) :: p.map
    channels := p.channels ++ [uid] }

/-- The first lock of `dispatch_registered_with`. -/
@[grind] def take (p : ApiPending) (uid : UInt64) (now : Nat) : ApiPending :=
  match p.map.find? fun x => x.1 == uid with
  | none => p.sweepExpiredLocked now
  | some x =>
    let p := p.remove uid
    if x.2.deadline ≤ now then p else { p with taken := x :: p.taken }

/-- The rest of a `dispatch_registered_with` that has a waiter. -/
@[grind] def finish (p : ApiPending) (call : Nat) (built : Option EngineResponse)
    (now : Nat) : ApiPending :=
  match p.taken[call]? with
  | none => p
  | some x =>
    let p := { p with taken := p.taken.eraseIdx call }
    match built.filter fun resp => resp.requestUid == x.1 with
    | some resp => { p with sent := p.sent ++ [(x.2.tx, resp)] }
    | none =>
      if now < x.2.deadline ∧ (p.map.any fun y => y.1 == x.1) = false then
        { p with map := x :: p.map }
      else p

@[grind] def step (p : ApiPending) : ApiCall → ApiPending
  | .register uid deadline now => p.registerWithTimeout uid deadline now
  | .remove uid => p.remove uid
  | .take uid now => p.take uid now
  | .finish call built now => p.finish call built now

/-- Who has a channel: waiters and responses, each with its uid. -/
@[grind] def ends (p : ApiPending) : List (UInt64 × Nat) :=
  (p.map ++ p.taken).map (fun x => (x.1, x.2.tx)) ++ p.sent.map fun x => (x.2.requestUid, x.1)

/-- No channel has two ends, and each is for the uid it was registered under. -/
structure Inv (p : ApiPending) : Prop where
  once : (p.ends.map Prod.snd).Nodup
  owned : ∀ x ∈ p.ends, p.channels[x.2]? = some x.1

variable {p p' : ApiPending}

/-- Ends may change hands and go. -/
theorem Inv.of_subperm (h : p.Inv) (hends : Subperm p'.ends p.ends)
    (hchannels : p'.channels = p.channels) : p'.Inv where
  once := by
    obtain ⟨kept, hperm, hsub⟩ := hends
    exact (hperm.map _).nodup_iff.mp (h.once.sublist (hsub.map _))
  owned x hx := hchannels ▸ h.owned x (hends.subset hx)

theorem Inv.of_held (h : p.Inv) (hchannels : p'.channels = p.channels)
    (hsent : p'.sent = p.sent) (hheld : Subperm (p'.map ++ p'.taken) (p.map ++ p.taken)) :
    p'.Inv := by
  obtain ⟨kept, hperm, hsub⟩ := hheld
  refine h.of_subperm ⟨_, (hperm.map _).append_right _, ?_⟩ hchannels
  rw [hsent]
  exact (hsub.map _).append_right _

theorem Inv.sweep (h : p.Inv) (now : Nat) : (p.sweepExpiredLocked now).Inv := by
  unfold sweepExpiredLocked
  split
  · exact h
  · exact h.of_held rfl rfl (filter_sublist.append_right _).subperm

theorem Inv.remove (h : p.Inv) (uid : UInt64) : (p.remove uid).Inv :=
  h.of_held rfl rfl (filter_sublist.append_right _).subperm

/-- A new channel has a number that nobody has. -/
theorem Inv.register (h : p.Inv) (uid : UInt64) (deadline now : Nat) :
    (p.registerWithTimeout uid deadline now).Inv := by
  have hrest := (h.sweep now).remove uid
  unfold registerWithTimeout
  generalize (p.sweepExpiredLocked now).remove uid = q at hrest
  have hlt : ∀ x ∈ q.ends, x.2 < q.channels.length := fun x hx =>
    (List.getElem?_eq_some_iff.mp (hrest.owned x hx)).1
  refine ⟨nodup_cons.mpr ⟨fun hmem => ?_, hrest.once⟩, fun x hx => ?_⟩
  · obtain ⟨x, hx, heq⟩ := List.mem_map.mp hmem
    exact absurd heq (Nat.ne_of_lt (hlt x hx))
  · rcases mem_cons.mp hx with rfl | hx
    · exact getElem?_concat_length
    · exact (getElem?_append_left (hlt x hx)).trans (hrest.owned x hx)

theorem Inv.take (h : p.Inv) (uid : UInt64) (now : Nat) : (p.take uid now).Inv := by
  unfold ApiPending.take
  split
  · exact h.sweep now
  next x hx =>
  dsimp only
  split
  · exact h.remove uid
  have htaken : Subperm (x :: (p.remove uid).map) p.map := by
    refine cons_subperm_of_not_mem_of_mem ?_ ?_ filter_sublist.subperm <;> grind
  refine h.of_held rfl rfl ?_
  exact perm_middle.subperm.trans ((subperm_append_right _).mpr htaken)

theorem Inv.finish (h : p.Inv) (call : Nat) (built : Option EngineResponse) (now : Nat) :
    (p.finish call built now).Inv := by
  unfold ApiPending.finish
  split
  · exact h
  next x hx =>
  obtain ⟨hcall, rfl⟩ := List.getElem?_eq_some_iff.mp hx
  have hperm := (getElem_cons_eraseIdx_perm hcall).append_left p.map
  dsimp only
  split
  next resp hresp =>
    have huid := beq_iff_eq.mp (Option.filter_eq_some_iff.mp hresp).2
    refine h.of_subperm (Perm.subperm ?_) rfl
    unfold ends
    rw [@List.map_append _ _ _ p.sent, ← append_assoc]
    refine (perm_append_singleton _ _).trans ?_
    dsimp only
    rw [huid]
    exact ((perm_middle.symm.trans hperm).map (fun x => (x.1, x.2.tx))).append_right _
  · split
    · exact h.of_held rfl rfl (perm_middle.symm.trans hperm).subperm
    · exact h.of_held rfl rfl ((eraseIdx_sublist _ _).append_left _).subperm

/-- **Every channel gets at most one response, and its own.** However calls interleave, a
response goes into a channel that was registered under its uid, no channel gets two, and who
still waits has got none. -/
theorem responses_delivered_once (now : Nat) (calls : List ApiCall) :
    let p := calls.foldl step (new now)
    (p.sent.map Prod.fst).Nodup ∧
      (∀ x ∈ p.sent, p.channels[x.1]? = some x.2.requestUid) ∧
      ∀ x ∈ p.map, p.channels[x.2.tx]? = some x.1 ∧ x.2.tx ∉ p.sent.map Prod.fst := by
  have hinv : (calls.foldl step (new now)).Inv := by
    refine foldlRecOn (motive := Inv) calls _ ⟨nodup_nil, nofun⟩ ?_
    intro p hp call _
    cases call with
    | register uid deadline now => exact hp.register uid deadline now
    | remove uid => exact hp.remove uid
    | take uid now => exact hp.take uid now
    | finish call built now => exact hp.finish call built now
  have honce := hinv.once
  rw [ends, map_append, List.map_map, List.map_map] at honce
  obtain ⟨-, hsent, hapart⟩ := nodup_append.mp honce
  refine ⟨hsent, fun x hx => hinv.owned (_, x.1) ?_, fun x hx => ⟨hinv.owned (x.1, x.2.tx) ?_, ?_⟩⟩
  · grind
  · grind
  · exact fun hmem => hapart _ (List.mem_map_of_mem (mem_append_left _ hx)) _ hmem rfl

/-- The waiter `x`, the only one of its uid, still waits or has its response. -/
structure Kept (x : Waiter) (p : ApiPending) : Prop where
  map : ∀ y ∈ p.map, y.1 = x.1 → y = x
  taken : ∀ y ∈ p.taken, y.1 = x.1 → y = x
  kept : x ∈ p.map ∨ x ∈ p.taken ∨ x.2.tx ∈ p.sent.map Prod.fst

/-- The call comes before the deadline and leaves the uid alone. -/
@[grind] def Spares (x : Waiter) : ApiCall → Prop
  | .register uid _ now => uid ≠ x.1 ∧ now < x.2.deadline
  | .remove uid => uid ≠ x.1
  | .take _ now | .finish _ _ now => now < x.2.deadline

theorem Kept.step {x : Waiter} {call : ApiCall} (h : p.Kept x) (hspares : Spares x call) :
    (p.step call).Kept x := by
  obtain ⟨hmap, htaken, hkept⟩ := h
  cases call with
  | register uid deadline now => constructor <;> grind
  | remove uid => constructor <;> grind
  | take uid now => constructor <;> grind
  | finish call built now =>
    have hnow : now < x.2.deadline := hspares
    rw [ApiPending.step, ApiPending.finish]
    split
    · exact ⟨hmap, htaken, hkept⟩
    next y hy =>
    obtain ⟨hcall, rfl⟩ := List.getElem?_eq_some_iff.mp hy
    have hperm := @(getElem_cons_eraseIdx_perm hcall).mem_iff
    constructor <;> grind

/-- **No waiter is lost.** Whatever malformed responses are dispatched before its deadline, a new
waiter is in the registry or with a dispatch or has its response, as long as its uid is neither
registered again nor removed. From the registry its response reaches it, and from a dispatch that
has taken it, whatever other calls came in between. -/
theorem waiter_not_lost {p : ApiPending} {uid : UInt64} {deadline now : Nat}
    {calls : List ApiCall} (hfree : ∀ y ∈ p.taken, y.1 ≠ uid)
    (hspares : ∀ call ∈ calls, Spares (uid, ⟨p.channels.length, deadline⟩) call) :
    let x : Waiter := (uid, ⟨p.channels.length, deadline⟩)
    let q := calls.foldl step (p.registerWithTimeout uid deadline now)
    (x ∈ q.map ∨ x ∈ q.taken ∨ x.2.tx ∈ q.sent.map Prod.fst) ∧
      (x ∈ q.map → ∀ resp, resp.requestUid = uid → ∀ now < deadline, ∀ later,
        (x.2.tx, resp) ∈ ((q.take uid now).finish 0 (some resp) later).sent) ∧
      ∀ call, q.taken[call]? = some x → ∀ resp, resp.requestUid = uid → ∀ later,
        (x.2.tx, resp) ∈ (q.finish call (some resp) later).sent := by
  intro x q
  have hkept : q.Kept x := by
    refine foldlRecOn calls _ ?_ fun q hq call hcall => hq.step (hspares call hcall)
    constructor <;> grind
  refine ⟨hkept.kept, fun hx resp hresp now hnow later => ?_, ?_⟩
  · have honly := hkept.map
    grind
  · grind

theorem waiter_not_lost_malformed :
    let p := [.take 1 3, .finish 0 none 5].foldl step ((new 0).registerWithTimeout 1 9 0)
    (0, ⟨1, [7]⟩) ∈ ((p.take 1 6).finish 0 (some ⟨1, [7]⟩) 7).sent :=
  (@waiter_not_lost (new 0) 1 9 0 [.take 1 3, .finish 0 none 5] nofun (by simp [Spares])).2.1
    (.head _) _ rfl 6 (by decide) 7

end ApiPending

end MoonProto
