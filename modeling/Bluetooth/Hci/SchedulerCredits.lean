import Bluetooth.Hci.SchedulerDelivery
import Bluetooth.Hci.SchedulerSafety
import Mathlib.Data.List.Perm.Basic

/-!
# The credit ledger

A credit of either kind is in one of two places: the scheduler's pool, or the controller,
which holds it for a fragment it has received and not yet reported. A connection's
`number_of_sent_packets_` counts the fragments it has waiting in `fragments_to_send_` and
those the controller holds for it. Every event but `SetDisconnect` keeps this ledger while
no count reaches 2^16, so in such runs neither pool passes its maximum and the credits of
each kind are conserved.
-/

namespace Bluetooth.Hci

/-! ## Sums over a list -/

def total {α : Type} (f : α → Nat) (l : List α) : Nat :=
  l.foldr (fun a n => f a + n) 0

section Total

variable {α : Type} {f g : α → Nat}

@[simp] theorem total_nil : total f [] = 0 := rfl

@[simp] theorem total_cons (a : α) (l : List α) : total f (a :: l) = f a + total f l := rfl

@[simp] theorem total_zero (l : List α) : total (fun _ => 0) l = 0 := by
  induction l with
  | nil => rfl
  | cons a l ih => rw [total_cons, ih]

theorem total_congr {l : List α} (h : ∀ a ∈ l, f a = g a) : total f l = total g l := by
  induction l with
  | nil => rfl
  | cons a l ih =>
    rw [total_cons, total_cons, h a (List.mem_cons_self a l),
      ih fun b hb => h b (List.mem_cons_of_mem a hb)]

theorem total_add (l : List α) : total (fun a => f a + g a) l = total f l + total g l := by
  induction l with
  | nil => rfl
  | cons a l ih => simp only [total_cons, ih]; omega

theorem total_map {β : Type} (h : β → α) (l : List β) :
    total f (l.map h) = total (fun b => f (h b)) l := by
  induction l with
  | nil => rfl
  | cons b l ih => rw [List.map_cons, total_cons, total_cons, ih]

theorem total_perm {l₁ l₂ : List α} (h : l₁.Perm l₂) : total f l₁ = total f l₂ :=
  haveI : LeftCommutative fun a n => f a + n := ⟨fun _ _ _ => Nat.add_left_comm _ _ _⟩
  h.foldr_eq 0

theorem le_total_of_mem {l : List α} {a : α} (ha : a ∈ l) : f a ≤ total f l := by
  induction l with
  | nil => cases ha
  | cons b l ih =>
    rw [total_cons]
    rcases List.mem_cons.mp ha with rfl | ha
    · omega
    · have := ih ha; omega

end Total

/-! ## Sums over distinct keys -/

section Keyed

variable {β : Type} {u : UInt16 → Nat} {x : UInt16} {L : List (UInt16 × β)}

theorem total_update_of_not_mem (v : Nat) (hx : x ∉ L.map Prod.fst) :
    total (fun k => Function.update u x v k.1) L = total (fun k => u k.1) L :=
  total_congr fun k hk =>
    Function.update_noteq (fun he => hx (by rw [← he]; exact List.mem_map_of_mem Prod.fst hk)) _ _

theorem total_update_of_mem (v : Nat) (hL : (L.map Prod.fst).Nodup) (hx : x ∈ L.map Prod.fst) :
    total (fun k => Function.update u x v k.1) L + u x = total (fun k => u k.1) L + v := by
  induction L with
  | nil => cases hx
  | cons k L ih =>
    rw [List.map_cons, List.nodup_cons] at hL
    rw [List.map_cons, List.mem_cons] at hx
    simp only [total_cons]
    by_cases hk : k.1 = x
    · subst hk
      rw [Function.update_same, total_update_of_not_mem v hL.1]
      omega
    · rw [Function.update_noteq hk]
      have := ih hL.2 (hx.resolve_left (Ne.symm hk))
      omega

theorem total_indicator (hL : (L.map Prod.fst).Nodup) :
    total (fun k => if x = k.1 then 1 else 0) L = if x ∈ L.map Prod.fst then 1 else 0 := by
  induction L with
  | nil => simp
  | cons k L ih =>
    rw [List.map_cons, List.nodup_cons] at hL
    rw [total_cons, ih hL.2, List.map_cons]
    by_cases hk : x = k.1
    · subst hk; simp [hL.1]
    · simp only [hk, if_false, List.mem_cons, false_or, Nat.zero_add]

end Keyed

namespace AclQueueHandler

def account (r : AclQueueHandler) : ConnectionType × UInt16 × Bool :=
  (r.connectionType, r.numberOfSentPackets, r.isDisconnected)

end AclQueueHandler

namespace RoundRobinScheduler

variable {s s' : RoundRobinScheduler}

/-! ## What the ledger reads of a scheduler -/

def kinds (s : RoundRobinScheduler) : List (UInt16 × ConnectionType) :=
  s.aclQueueHandlers.entries.map fun e => (e.1, e.2.connectionType)

def accounts (s : RoundRobinScheduler) : List (UInt16 × ConnectionType × UInt16 × Bool) :=
  s.aclQueueHandlers.entries.map fun e => (e.1, e.2.account)

def queuedFor (s : RoundRobinScheduler) (handle : UInt16) : Nat :=
  (s.fragmentsToSend.filter fun f => f.2.handle = handle).length

theorem kinds_eq_accounts (s : RoundRobinScheduler) :
    s.kinds = s.accounts.map fun a => (a.1, a.2.1) := by
  simp [kinds, accounts, AclQueueHandler.account, Function.comp_def]

theorem findIn_accounts (s : RoundRobinScheduler) (x : UInt16) :
    HandleMap.findIn x s.accounts = (s.aclQueueHandlers.find x).map AclQueueHandler.account :=
  HandleMap.findIn_map (fun _ (r : AclQueueHandler) => r.account) _

theorem kinds_nodup (s : RoundRobinScheduler) : (s.kinds.map Prod.fst).Nodup := by
  have : s.kinds.map Prod.fst = s.aclQueueHandlers.keys := by
    simp [kinds, HandleMap.keys, Function.comp_def]
  rw [this]
  exact s.aclQueueHandlers.keys_nodup

theorem filter_kinds_nodup (s : RoundRobinScheduler) (t : ConnectionType) :
    ((s.kinds.filter fun k => k.2 = t).map Prod.fst).Nodup :=
  s.kinds_nodup.sublist ((List.filter_sublist _).map _)

theorem mem_kinds_of_find {x : UInt16} {r : AclQueueHandler}
    (hr : s.aclQueueHandlers.find x = some r) : (x, r.connectionType) ∈ s.kinds :=
  List.mem_map_of_mem (fun e => (e.1, e.2.connectionType)) (HandleMap.find_mem hr)

theorem find_of_mem_kinds {x : UInt16} {t : ConnectionType} (h : (x, t) ∈ s.kinds) :
    ∃ r, s.aclQueueHandlers.find x = some r ∧ r.connectionType = t := by
  obtain ⟨e, he, heq⟩ := List.mem_map.mp h
  obtain ⟨rfl, rfl⟩ := Prod.mk.inj heq
  exact ⟨e.2, HandleMap.find_of_mem he, rfl⟩

theorem mem_keys_filter_kinds {x : UInt16} {t t' : ConnectionType} (h : (x, t) ∈ s.kinds) :
    x ∈ (s.kinds.filter fun k => k.2 = t').map Prod.fst ↔ t = t' := by
  constructor
  · intro hx
    obtain ⟨k, hk, rfl⟩ := List.mem_map.mp hx
    obtain ⟨hk, hkt⟩ := List.mem_filter.mp hk
    have hkey := List.inj_on_of_nodup_map s.kinds_nodup h hk rfl
    exact (congrArg Prod.snd hkey).trans (of_decide_eq_true hkt)
  · rintro rfl
    exact List.mem_map_of_mem _ (List.mem_filter.mpr ⟨h, decide_eq_true rfl⟩)

theorem total_kinds (g : UInt16 → Nat) (t : ConnectionType) :
    total (fun k => g k.1) (s.kinds.filter fun k => k.2 = t) =
      total (fun e => g e.1) (s.aclQueueHandlers.entries.filter fun e => e.2.connectionType = t) := by
  rw [kinds, List.filter_map, total_map]
  rfl

theorem queuedFor_eq_zero {x : UInt16} (h : ∀ f ∈ s.fragmentsToSend, f.2.handle ≠ x) :
    s.queuedFor x = 0 :=
  List.length_eq_zero.mpr (List.filter_eq_nil_iff.mpr fun f hf => by simpa using h f hf)

theorem queuedFor_eq_length {x : UInt16} (h : ∀ f ∈ s.fragmentsToSend, f.2.handle = x) :
    s.queuedFor x = s.fragmentsToSend.length :=
  congrArg List.length (List.filter_eq_self.mpr fun f hf => by simpa using h f hf)

theorem queuedFor_cons {x : UInt16} {t : ConnectionType} {f : AclPacketBuilder}
    (h : s.fragmentsToSend = (t, f) :: s'.fragmentsToSend) :
    s.queuedFor x = s'.queuedFor x + if f.handle = x then 1 else 0 := by
  simp only [queuedFor, h, ← List.countP_eq_length_filter, List.countP_cons, decide_eq_true_eq]

theorem queuedOf_eq_total (htag : ∀ f ∈ s.fragmentsToSend, (f.2.handle, f.1) ∈ s.kinds)
    (t : ConnectionType) :
    s.queuedOf t = total (fun k => s.queuedFor k.1) (s.kinds.filter fun k => k.2 = t) := by
  unfold queuedOf queuedFor
  generalize s.fragmentsToSend = Q at htag ⊢
  induction Q with
  | nil => simp
  | cons f Q ih =>
    have ih := ih fun g hg => htag g (List.mem_cons_of_mem f hg)
    simp only [← List.countP_eq_length_filter, List.countP_cons, decide_eq_true_eq] at ih ⊢
    rw [total_add, ← ih, total_indicator (s.filter_kinds_nodup t)]
    simp only [mem_keys_filter_kinds (htag f (List.mem_cons_self f Q))]

/-! ## Steps that leave the ledger as it is -/

/-- `s'` agrees with `s` on all that the ledger reads: the pools and their maxima, the queue
and each connection's account. -/
structure KeepsLedger (s s' : RoundRobinScheduler) : Prop where
  credits : ∀ t, s'.credits t = s.credits t
  maxCredits : ∀ t, s'.maxCredits t = s.maxCredits t
  queue : s'.fragmentsToSend = s.fragmentsToSend
  accounts : s'.accounts = s.accounts

namespace KeepsLedger

theorem trans {s₁ s₂ s₃ : RoundRobinScheduler} (h₁ : KeepsLedger s₁ s₂) (h₂ : KeepsLedger s₂ s₃) :
    KeepsLedger s₁ s₃ :=
  ⟨fun t => (h₂.credits t).trans (h₁.credits t), fun t => (h₂.maxCredits t).trans (h₁.maxCredits t),
    h₂.queue.trans h₁.queue, h₂.accounts.trans h₁.accounts⟩

theorem find (h : KeepsLedger s s') (x : UInt16) :
    (s'.aclQueueHandlers.find x).map AclQueueHandler.account =
      (s.aclQueueHandlers.find x).map AclQueueHandler.account := by
  rw [← findIn_accounts, ← findIn_accounts, h.accounts]

theorem kinds_eq (h : KeepsLedger s s') : s'.kinds = s.kinds := by
  rw [kinds_eq_accounts, kinds_eq_accounts, h.accounts]

theorem queuedFor_eq (h : KeepsLedger s s') (x : UInt16) : s'.queuedFor x = s.queuedFor x := by
  unfold queuedFor; rw [h.queue]

end KeepsLedger

theorem registerDequeues_accounts {m m' : HandleMap AclQueueHandler} {count : Nat} {it : HandleIter}
    (h : registerDequeues m count it = .ok m') :
    m'.entries.map (fun e => (e.1, e.2.account)) = m.entries.map fun e => (e.1, e.2.account) := by
  induction count generalizing m it with
  | zero => cases h; rfl
  | succ count ih =>
    cases it with
    | node a =>
      unfold registerDequeues at h
      rw [ih h]
      exact HandleMap.project_mapEntries _ fun _ _ => by split <;> rfl
    | header => cases h
    | null => cases h

theorem startRoundRobin_keeps (h : s.startRoundRobin = .ok s') : KeepsLedger s s' := by
  unfold startRoundRobin at h
  split_ifs at h
  · cases h; exact ⟨fun _ => rfl, fun _ => rfl, rfl, rfl⟩
  · cases h; exact ⟨fun _ => rfl, fun _ => rfl, rfl, rfl⟩
  · obtain ⟨m, hm, h⟩ := bind_eq_ok.mp h
    split at h
    · cases h; exact ⟨fun _ => rfl, fun _ => rfl, rfl, registerDequeues_accounts hm⟩
    · cases h

theorem runPostedStartRoundRobin_keeps (h : s.runPostedStartRoundRobin = .ok s') :
    KeepsLedger s s' :=
  let k := startRoundRobin_keeps h
  ⟨k.credits, k.maxCredits, k.queue, k.accounts⟩

/-! ## The steps that move credits -/

theorem maxCredits_of_limits (h : s'.limits = s.limits) (t : ConnectionType) :
    s'.maxCredits t = s.maxCredits t := by
  cases t
  exacts [congrArg Prod.fst h, congrArg (·.2.1) h]

theorem toNat_sub_one {a : UInt16} (h : 0 < a) : (a - 1).toNat + 1 = a.toNat := by
  have h' : (1 : UInt16).toNat ≤ a.toNat := h
  rw [toNat_sub_of_toNat_le h']
  have : (1 : UInt16).toNat = 1 := rfl
  omega

theorem takeCredit_credits {t : ConnectionType} (h : s.takeCredit t = .ok s') :
    (s'.credits t).toNat + 1 = (s.credits t).toNat ∧ ∀ t', t' ≠ t → s'.credits t' = s.credits t' := by
  unfold takeCredit at h
  split_ifs at h with ht hc hc
  · cases h; subst ht
    exact ⟨toNat_sub_one hc, fun t' ht' => by cases t' <;> first | exact absurd rfl ht' | rfl⟩
  · cases h; cases t
    · exact absurd rfl ht
    · exact ⟨toNat_sub_one hc, fun t' ht' => by cases t' <;> first | exact absurd rfl ht' | rfl⟩

theorem afterPop_credits (t : ConnectionType) : (afterPop s).credits t = s.credits t := by
  unfold afterPop; split
  · rfl
  · dsimp only; split <;> rfl

theorem handleEnqueueNextFragment_credits {f : AclPacketBuilder}
    (h : s.handleEnqueueNextFragment = .ok (f, s')) :
    ∃ t, s.fragmentsToSend = (t, f) :: s'.fragmentsToSend ∧
      (s'.credits t).toNat + 1 = (s.credits t).toNat ∧ (∀ t', t' ≠ t → s'.credits t' = s.credits t') ∧
      (∀ t, s'.maxCredits t = s.maxCredits t) ∧ s'.aclQueueHandlers = s.aclQueueHandlers := by
  obtain ⟨⟨t, hq⟩, hl⟩ := handleEnqueueNextFragment_queue h
  unfold handleEnqueueNextFragment at h
  split at h
  · cases h
  · obtain ⟨c, hc, h⟩ := bind_eq_ok.mp h
    cases h
    obtain ⟨hsub, hne⟩ := takeCredit_credits hc
    obtain ⟨a, b, rfl⟩ := takeCredit_eq hc
    rename_i t' f' rest hq'
    obtain ⟨rfl, -⟩ := Prod.mk.inj (List.cons.inj (hq.symm.trans hq')).1
    exact ⟨t, hq, by rw [afterPop_credits]; exact hsub,
      fun t' ht' => (afterPop_credits t').trans (hne t' ht'), maxCredits_of_limits hl,
      afterPop_aclQueueHandlers⟩

theorem bufferPacket_keeps {handle : UInt16} {packet : List UInt8}
    (h : s.bufferPacket handle packet = .ok s') :
    (∀ t, s'.credits t = s.credits t) ∧ (∀ t, s'.maxCredits t = s.maxCredits t) ∧
      s'.kinds = s.kinds ∧ ∀ x, x ≠ handle →
        (s'.aclQueueHandlers.find x).map AclQueueHandler.account =
          (s.aclQueueHandlers.find x).map AclQueueHandler.account := by
  unfold bufferPacket at h
  cases hr : s.aclQueueHandlers.find handle with
  | none => rw [hr] at h; cases h
  | some r =>
    rw [hr] at h
    dsimp only at h
    split_ifs at h
    cases h
    refine ⟨fun _ => rfl, fun _ => rfl,
      (HandleMap.project_mapEntries _ fun _ _ => by split <;> rfl).trans
        (HandleMap.project_mapEntries _ fun _ _ => rfl), fun x hx => ?_⟩
    simp only [sendNextFragment, countSent, unregisterAllConnections,
      HandleMap.find_modify_of_ne _ _ hx, HandleMap.find_mapEntries, Option.map_map]
    rfl

theorem credits_addCredits_of_ne {t t' : ConnectionType} (n : UInt16) (h : t' ≠ t) :
    (s.addCredits t n).credits t' = s.credits t' := by
  cases t <;> cases t' <;> first | exact absurd rfl h | rfl

/-- The lines of `IncomingAclCredits` between the lookup and the `ASSERT`s, for the record `r`
under `handle`: its count drops by `credits` and the pool of its kind grows by `credits`. -/
def returnCredits (s : RoundRobinScheduler) (handle credits : UInt16) (r : AclQueueHandler) :
    RoundRobinScheduler :=
  ({ s with aclQueueHandlers := s.aclQueueHandlers.modify handle fun r =>
      { r with numberOfSentPackets := r.numberOfSentPackets - credits } }).addCredits
    r.connectionType credits

theorem incomingAclCredits_of_find {handle credits : UInt16} {r : AclQueueHandler}
    (hr : s.aclQueueHandlers.find handle = some r) (hd : r.isDisconnected = false) :
    s.incomingAclCredits handle credits =
      (s.returnCredits handle credits r).checkCredits >>= fun returned =>
        if returned.aclPacketCredits = credits ∨ returned.leAclPacketCredits = credits then
          returned.startRoundRobin
        else .ok returned := by
  unfold incomingAclCredits
  rw [hr]
  exact if_neg (by simp [hd])

section ReturnCredits

variable {handle n : UInt16} {r : AclQueueHandler}

theorem returnCredits_aclQueueHandlers :
    (s.returnCredits handle n r).aclQueueHandlers = s.aclQueueHandlers.modify handle
      fun r => { r with numberOfSentPackets := r.numberOfSentPackets - n } := by
  unfold returnCredits addCredits; split <;> rfl

theorem returnCredits_fragmentsToSend :
    (s.returnCredits handle n r).fragmentsToSend = s.fragmentsToSend := by
  unfold returnCredits addCredits; split <;> rfl

theorem returnCredits_maxCredits (t : ConnectionType) :
    (s.returnCredits handle n r).maxCredits t = s.maxCredits t := by
  unfold returnCredits addCredits; split <;> cases t <;> rfl

theorem returnCredits_credits :
    (s.returnCredits handle n r).credits r.connectionType = s.credits r.connectionType + n :=
  credits_addCredits _ _ _

theorem returnCredits_credits_of_ne {t : ConnectionType} (ht : t ≠ r.connectionType) :
    (s.returnCredits handle n r).credits t = s.credits t :=
  credits_addCredits_of_ne n ht

theorem returnCredits_kinds : (s.returnCredits handle n r).kinds = s.kinds := by
  unfold kinds
  rw [returnCredits_aclQueueHandlers]
  exact HandleMap.project_mapEntries _ fun _ _ => by split <;> rfl

end ReturnCredits

end RoundRobinScheduler

/-! ## The ledger of a world -/

/-- The payload of a `BufferPacket` cannot carry a connection's count of sent packets past
2^16: either buffer count, plus one more fragment than the payload has bytes, stays below
2^16. Every other event fits. -/
def Event.Fits (s : RoundRobinScheduler) : Event → Prop
  | .bufferPacket _ p => (s.maxCredits .CLASSIC).toNat + p.length + 1 < UInt16.size ∧
      (s.maxCredits .LE).toNat + p.length + 1 < UInt16.size
  | _ => True

instance (s : RoundRobinScheduler) : (e : Event) → Decidable (e.Fits s)
  | .register _ _ => inferInstanceAs (Decidable True)
  | .unregister _ => inferInstanceAs (Decidable True)
  | .setDisconnect _ => inferInstanceAs (Decidable True)
  | .bufferPacket _ _ => inferInstanceAs (Decidable (_ ∧ _))
  | .handleEnqueueNextFragment => inferInstanceAs (Decidable True)
  | .startRoundRobin => inferInstanceAs (Decidable True)
  | .incomingAclCredits _ _ => inferInstanceAs (Decidable True)

theorem Event.Fits.of_limits {s s' : RoundRobinScheduler} {e : Event} (h : s'.limits = s.limits)
    (hf : e.Fits s) : e.Fits s' := by
  cases e with
  | bufferPacket _ p =>
    show _ ∧ _
    rw [RoundRobinScheduler.maxCredits_of_limits h, RoundRobinScheduler.maxCredits_of_limits h]
    exact hf
  | _ => trivial


namespace World

open RoundRobinScheduler

variable {w w' : World}

/-- What the controller holds, received and not yet reported, for the connections of kind `t`. -/
def unreportedOf (w : World) (t : ConnectionType) : Nat :=
  total (fun k => w.unreported k.1) (w.scheduler.kinds.filter fun k => k.2 = t)

/-- The credit ledger of a world in which no connection was passed to `SetDisconnect`. Each
connection's count is what it has queued plus what the controller holds for it, and it is not
disconnected; each pool plus what the controller holds for its kind is the kind's buffer
count; every queued fragment belongs to a connection of its kind; and the controller holds
nothing for a handle without a connection. -/
structure Ledger (w : World) : Prop where
  disconnected : w.disconnected = []
  sent : ∀ h r, w.scheduler.aclQueueHandlers.find h = some r →
    r.numberOfSentPackets.toNat = w.scheduler.queuedFor h + w.unreported h ∧
      r.isDisconnected = false
  pool : ∀ t, (w.scheduler.credits t).toNat + w.unreportedOf t = (w.scheduler.maxCredits t).toNat
  tagged : ∀ f ∈ w.scheduler.fragmentsToSend, (f.2.handle, f.1) ∈ w.scheduler.kinds
  idle : ∀ h, w.scheduler.aclQueueHandlers.find h = none → w.unreported h = 0

theorem unreportedOf_scheduler {s : RoundRobinScheduler} (hk : s.kinds = w.scheduler.kinds)
    (t : ConnectionType) : ({ w with scheduler := s }).unreportedOf t = w.unreportedOf t := by
  unfold unreportedOf; rw [hk]

theorem unreported_le_unreportedOf {x : UInt16} {t : ConnectionType}
    (hx : (x, t) ∈ w.scheduler.kinds) : w.unreported x ≤ w.unreportedOf t :=
  le_total_of_mem (f := fun k => w.unreported k.1)
    (List.mem_filter.mpr ⟨hx, decide_eq_true (rfl : t = t)⟩)

theorem unreportedOf_receive {x : UInt16} {t : ConnectionType} (hx : (x, t) ∈ w.scheduler.kinds)
    (t' : ConnectionType) :
    (w.receive x).unreportedOf t' = w.unreportedOf t' + if t = t' then 1 else 0 := by
  unfold unreportedOf receive
  dsimp only
  by_cases ht : t = t'
  · subst ht
    have := total_update_of_mem (u := w.unreported) (w.unreported x + 1)
      (w.scheduler.filter_kinds_nodup t) ((mem_keys_filter_kinds hx).mpr rfl)
    rw [if_pos rfl]; omega
  · rw [if_neg ht, total_update_of_not_mem _ (mt (mem_keys_filter_kinds hx).mp ht)]
    rfl

theorem unreportedOf_report {x : UInt16} {t : ConnectionType} (hx : (x, t) ∈ w.scheduler.kinds)
    {n : Nat} (hn : n ≤ w.unreported x) (t' : ConnectionType) :
    (w.report x n).unreportedOf t' + (if t = t' then n else 0) = w.unreportedOf t' := by
  unfold unreportedOf report
  dsimp only
  by_cases ht : t = t'
  · subst ht
    have := total_update_of_mem (u := w.unreported) (w.unreported x - n)
      (w.scheduler.filter_kinds_nodup t) ((mem_keys_filter_kinds hx).mpr rfl)
    rw [if_pos rfl]; omega
  · rw [if_neg ht, total_update_of_not_mem _ (mt (mem_keys_filter_kinds hx).mp ht)]
    rfl

namespace Ledger

theorem sent_of_account (hl : w.Ledger) {x : UInt16} {r : AclQueueHandler}
    {o : Option AclQueueHandler}
    (ho : o.map AclQueueHandler.account =
      (w.scheduler.aclQueueHandlers.find x).map AclQueueHandler.account) (hr : o = some r) :
    r.numberOfSentPackets.toNat = w.scheduler.queuedFor x + w.unreported x ∧
      r.isDisconnected = false := by
  subst hr
  obtain ⟨r₀, hr₀, hacc⟩ := Option.map_eq_some'.mp ho.symm
  simp only [AclQueueHandler.account, Prod.mk.injEq] at hacc
  rw [← hacc.2.1, ← hacc.2.2]
  exact hl.sent x r₀ hr₀

theorem init (a : UInt16) (b : Nat) (c : UInt16) (d : Nat) : (World.init a b c d).Ledger where
  disconnected := rfl
  sent _ _ h := by cases h
  pool t := by cases t <;> rfl
  tagged _ h := by cases h
  idle _ _ := rfl

theorem withRegistered (hl : w.Ledger) (l : List UInt16) : Ledger { w with registered := l } :=
  ⟨hl.1, hl.2, hl.3, hl.4, hl.5⟩

theorem keeps (hl : w.Ledger) {s : RoundRobinScheduler} (hk : KeepsLedger w.scheduler s) :
    Ledger { w with scheduler := s } where
  disconnected := hl.disconnected
  sent h r hr := by
    dsimp only at hr ⊢
    rw [hk.queuedFor_eq]
    exact hl.sent_of_account (hk.find h) hr
  pool t := by
    rw [unreportedOf_scheduler hk.kinds_eq]
    dsimp only
    rw [hk.credits, hk.maxCredits]
    exact hl.pool t
  tagged f hf := by
    dsimp only at hf ⊢
    rw [hk.kinds_eq]
    exact hl.tagged f (hk.queue ▸ hf)
  idle h hh := hl.idle h (Option.map_eq_none'.mp ((hk.find h).symm.trans (by rw [hh]; rfl)))

theorem register (hl : w.Ledger) {t : ConnectionType} {handle : UInt16} {s : RoundRobinScheduler}
    (hs : w.scheduler.register t handle = .ok s) (l : List UInt16) :
    Ledger { w with scheduler := s, registered := l } := by
  set m := w.scheduler.aclQueueHandlers.insert handle { connectionType := t } with hm
  -- the ledger right after the insertion
  have hins : Ledger { w with scheduler := { w.scheduler with aclQueueHandlers := m } } := by
    cases hf : w.scheduler.aclQueueHandlers.find handle with
    | some r => rw [hm, HandleMap.insert_of_find_some hf]; exact hl
    | none =>
      have hperm : (m.entries.map fun e => (e.1, e.2.connectionType)).Perm
          ((handle, t) :: w.scheduler.kinds) := by
        rw [hm, HandleMap.insert_entries_of_find_none hf]
        exact (HandleMap.perm_insertSorted handle _ _).map _
      have hnew : ∀ f ∈ w.scheduler.fragmentsToSend, f.2.handle ≠ handle := fun f hf' he => by
        obtain ⟨r, hr, -⟩ := find_of_mem_kinds (hl.tagged f hf')
        rw [he, hf] at hr; cases hr
      refine ⟨hl.disconnected, fun x r hr => ?_, fun t' => ?_, fun f hf' => ?_, fun x hx => ?_⟩
      · dsimp only at hr ⊢
        by_cases hx : x = handle
        · subst hx
          rw [hm, HandleMap.find_insert_self _ hf] at hr
          cases hr
          have h0 : w.scheduler.queuedFor x + w.unreported x = 0 := by
            rw [queuedFor_eq_zero hnew, hl.idle x hf]
          exact ⟨h0.symm, rfl⟩
        · rw [hm, HandleMap.find_insert_of_ne _ hx] at hr
          exact hl.sent x r hr
      · show _ + total _ (List.filter _ (m.entries.map _)) = _
        rw [total_perm (hperm.filter _), List.filter_cons]
        split
        · rw [total_cons, hl.idle handle hf, Nat.zero_add]; exact hl.pool t'
        · exact hl.pool t'
      · exact hperm.symm.subset (List.mem_cons_of_mem _ (hl.tagged f hf'))
      · have hne : x ≠ handle := fun he => by
          subst he; dsimp only at hx; rw [hm, HandleMap.find_insert_self _ hf] at hx; cases hx
        dsimp only at hx
        rw [hm, HandleMap.find_insert_of_ne _ hne] at hx
        exact hl.idle x hx
  unfold RoundRobinScheduler.register at hs
  dsimp only at hs
  split_ifs at hs
  · exact (hins.keeps (startRoundRobin_keeps hs)).withRegistered l
  · cases hs; exact hins.withRegistered l

theorem bufferPacket (hl : w.Ledger) (hi : w.scheduler.Registrations) {handle : UInt16}
    {packet : List UInt8} (ha : w.Allowed (.bufferPacket handle packet))
    (hfit : (Event.bufferPacket handle packet).Fits w.scheduler) {s : RoundRobinScheduler}
    (hs : w.scheduler.bufferPacket handle packet = .ok s) : Ledger { w with scheduler := s } := by
  -- the connection's record, whose dequeue fired on an empty queue
  obtain ⟨r, hr, hdr⟩ : ∃ r, w.scheduler.aclQueueHandlers.find handle = some r ∧
      r.dequeueIsRegistered = true := by
    have ha : w.dequeueRegistered handle = true := ha
    unfold dequeueRegistered at ha
    cases hf : w.scheduler.aclQueueHandlers.find handle with
    | none => rw [hf] at ha; cases ha
    | some r => rw [hf] at ha; exact ⟨r, rfl, ha⟩
  have hq := hi.queue_empty hr hdr
  obtain ⟨s₁, hs₁, hqueue, hrec, -, -⟩ := bufferPacket_spec hr packet
  obtain rfl : s = s₁ := Except.ok.inj (hs.symm.trans hs₁)
  obtain ⟨hcred, hmax, hkinds, hother⟩ := bufferPacket_keeps hs
  rw [hq, List.nil_append] at hqueue
  -- the queued fragments are the connection's, at most one more than the payload's bytes
  have hF : ∀ f ∈ s.fragmentsToSend, f.1 = r.connectionType ∧ f.2.handle = handle := fun f hf => by
    rw [hqueue] at hf
    exact ⟨(mem_fragmentsOf _ _ hf).1, (mem_fragmentsOf _ _ hf).2.1⟩
  have hlen : s.fragmentsToSend.length ≤ packet.length + 1 := by
    rw [hqueue, length_fragmentsOf]; exact length_piecesOf_le _ _
  have hmem := mem_kinds_of_find hr
  have hu : w.unreported handle ≤ (w.scheduler.maxCredits r.connectionType).toNat := by
    have := hl.pool r.connectionType
    have := unreported_le_unreportedOf hmem
    omega
  have hbound : (w.scheduler.maxCredits r.connectionType).toNat + packet.length + 1 <
      UInt16.size := by
    cases r.connectionType; exacts [hfit.1, hfit.2]
  have hwq : ∀ x, w.scheduler.queuedFor x = 0 := fun x => queuedFor_eq_zero (by simp [hq])
  refine ⟨hl.disconnected, fun x r' hr' => ?_, fun t => ?_, fun f hf => ?_, fun x hx => ?_⟩
  · dsimp only at hr' ⊢
    by_cases hx : x = handle
    · subst hx
      rw [hrec] at hr'
      cases hr'
      obtain ⟨hnosp, hdisc⟩ := hl.sent x r hr
      rw [hwq, Nat.zero_add] at hnosp
      have hb : (UInt16.ofNat s.fragmentsToSend.length).toNat = s.fragmentsToSend.length :=
        Nat.mod_eq_of_lt (show s.fragmentsToSend.length < UInt16.size by omega)
      rw [toNat_add_of_lt (by rw [hb, hnosp]; omega), hb, hnosp,
        queuedFor_eq_length fun f hf => (hF f hf).2]
      exact ⟨Nat.add_comm _ _, hdisc⟩
    · have := hl.sent_of_account (hother x hx) hr'
      rwa [hwq, ← queuedFor_eq_zero fun f hf he => hx (he.symm.trans (hF f hf).2)] at this
  · rw [unreportedOf_scheduler hkinds]
    dsimp only
    rw [hcred, hmax]
    exact hl.pool t
  · dsimp only at hf ⊢
    rw [hkinds, (hF f hf).1, (hF f hf).2]
    exact hmem
  · have hne : x ≠ handle := fun he => by
      subst he; dsimp only at hx; rw [hrec] at hx; cases hx
    exact hl.idle x (Option.map_eq_none'.mp ((hother x hne).symm.trans (by rw [hx]; rfl)))

theorem handleEnqueueNextFragment (hl : w.Ledger) {f : AclPacketBuilder} {s : RoundRobinScheduler}
    (hs : w.scheduler.handleEnqueueNextFragment = .ok (f, s)) :
    Ledger ({ w with scheduler := s }.receive f.handle) := by
  obtain ⟨t, hq, hsub, hne, hmax, hmap⟩ := handleEnqueueNextFragment_credits hs
  have hft : (f.handle, t) ∈ w.scheduler.kinds := hl.tagged (t, f) (hq ▸ List.mem_cons_self _ _)
  have hkinds : s.kinds = w.scheduler.kinds := by unfold kinds; rw [hmap]
  refine ⟨hl.disconnected, fun x r hr => ?_, fun t' => ?_, fun g hg => ?_, fun x hx => ?_⟩
  · dsimp only [receive] at hr ⊢
    rw [hmap] at hr
    obtain ⟨hnosp, hdisc⟩ := hl.sent x r hr
    refine ⟨?_, hdisc⟩
    rw [hnosp, queuedFor_cons (x := x) hq, Function.update_apply]
    by_cases hx : x = f.handle
    · subst hx; simp only [if_true]; omega
    · simp only [hx, Ne.symm hx, if_false]; omega
  · have hrecv := unreportedOf_receive (w := { w with scheduler := s }) (hkinds ▸ hft) t'
    rw [unreportedOf_scheduler hkinds] at hrecv
    have hp := hl.pool t'
    show (s.credits t').toNat + _ = (s.maxCredits t').toNat
    rw [hrecv, hmax]
    by_cases ht : t = t'
    · subst ht; rw [if_pos rfl]; omega
    · rw [if_neg ht, hne t' (Ne.symm ht)]; omega
  · dsimp only [receive] at hg ⊢
    rw [hkinds]
    exact hl.tagged g (hq ▸ List.mem_cons_of_mem _ hg)
  · dsimp only [receive] at hx ⊢
    rw [hmap] at hx
    have hne' : x ≠ f.handle := fun he => by
      obtain ⟨r, hr, -⟩ := find_of_mem_kinds hft
      rw [← he, hx] at hr; cases hr
    rw [Function.update_noteq hne']
    exact hl.idle x hx

theorem returnCredits (hl : w.Ledger) {handle n : UInt16} {r : AclQueueHandler}
    (hr : w.scheduler.aclQueueHandlers.find handle = some r) (ha : n.toNat ≤ w.unreported handle) :
    Ledger ({ w with scheduler := w.scheduler.returnCredits handle n r }.report handle n.toNat) := by
  obtain ⟨hnosp, hdisc⟩ := hl.sent handle r hr
  have hmem := mem_kinds_of_find hr
  have hun := unreported_le_unreportedOf hmem
  have hkinds : (w.scheduler.returnCredits handle n r).kinds = w.scheduler.kinds :=
    returnCredits_kinds
  refine ⟨hl.disconnected, fun x r' hr' => ?_, fun t => ?_, fun f hf => ?_, fun x hx => ?_⟩
  · dsimp only [report] at hr' ⊢
    rw [returnCredits_aclQueueHandlers] at hr'
    have hqf : (w.scheduler.returnCredits handle n r).queuedFor x = w.scheduler.queuedFor x := by
      unfold queuedFor; rw [returnCredits_fragmentsToSend]
    rw [hqf]
    by_cases hx : x = handle
    · subst hx
      rw [HandleMap.find_modify, hr] at hr'
      cases hr'
      rw [toNat_sub_of_toNat_le (by omega), Function.update_same]
      exact ⟨by omega, hdisc⟩
    · rw [HandleMap.find_modify_of_ne _ _ hx] at hr'
      rw [Function.update_noteq hx]
      exact hl.sent x r' hr'
  · have hrep := unreportedOf_report (w := { w with scheduler := w.scheduler.returnCredits handle n r })
      (hkinds ▸ hmem) (n := n.toNat) ha t
    rw [unreportedOf_scheduler hkinds] at hrep
    have hp := hl.pool t
    show ((w.scheduler.returnCredits handle n r).credits t).toNat + _ =
      ((w.scheduler.returnCredits handle n r).maxCredits t).toNat
    rw [returnCredits_maxCredits]
    by_cases ht : r.connectionType = t
    · subst ht
      rw [if_pos rfl] at hrep
      have hlt : (w.scheduler.credits r.connectionType).toNat + n.toNat < UInt16.size := by
        have := (w.scheduler.maxCredits r.connectionType).toNat_lt_size
        omega
      rw [returnCredits_credits, toNat_add_of_lt hlt]
      omega
    · rw [if_neg ht] at hrep
      rw [returnCredits_credits_of_ne (Ne.symm ht)]
      omega
  · dsimp only [report] at hf ⊢
    rw [hkinds]
    exact hl.tagged f (returnCredits_fragmentsToSend ▸ hf)
  · dsimp only [report] at hx ⊢
    rw [returnCredits_aclQueueHandlers] at hx
    have hne : x ≠ handle := fun he => by
      subst he; rw [HandleMap.find_modify, hr] at hx; cases hx
    rw [HandleMap.find_modify_of_ne _ _ hne] at hx
    rw [Function.update_noteq hne]
    exact hl.idle x hx

theorem incomingAclCredits (hl : w.Ledger) {handle n : UInt16}
    (ha : w.Allowed (.incomingAclCredits handle n)) {s : RoundRobinScheduler}
    (hs : w.scheduler.incomingAclCredits handle n = .ok s) :
    Ledger ({ w with scheduler := s }.report handle n.toNat) := by
  have ha : n.toNat ≤ w.unreported handle := ha
  cases hr : w.scheduler.aclQueueHandlers.find handle with
  | none =>
    unfold RoundRobinScheduler.incomingAclCredits at hs
    rw [hr] at hs
    cases hs
    have h0 : w.unreported handle - n.toNat = w.unreported handle := by
      have := hl.idle handle hr; omega
    have hw : { w with scheduler := w.scheduler }.report handle n.toNat = w := by
      unfold report; dsimp only; rw [h0, Function.update_eq_self]
    rw [hw]
    exact hl
  | some r =>
    rw [incomingAclCredits_of_find hr (hl.sent handle r hr).2] at hs
    obtain ⟨c, hc, hs⟩ := bind_eq_ok.mp hs
    obtain rfl := checkCredits_eq hc
    have hmid := hl.returnCredits hr ha
    split_ifs at hs
    · exact hmid.keeps (startRoundRobin_keeps hs)
    · cases hs; exact hmid

theorem step (hl : w.Ledger) (hi : w.scheduler.Registrations) {e : Event} (ha : w.Allowed e)
    (hd : ∀ h, e ≠ .setDisconnect h) (hfit : e.Fits w.scheduler) (hs : w.step e = .ok w') :
    w'.Ledger := by
  cases e with
  | register t h =>
    obtain ⟨s, hs', hw⟩ := bind_eq_ok.mp hs
    cases hw
    exact hl.register hs' _
  | unregister h => exact absurd ha.1 (by rw [hl.disconnected]; exact List.not_mem_nil h)
  | setDisconnect h => exact absurd rfl (hd h)
  | bufferPacket h p =>
    obtain ⟨s, hs', hw⟩ := bind_eq_ok.mp hs
    cases hw
    exact hl.bufferPacket hi ha hfit hs'
  | handleEnqueueNextFragment =>
    obtain ⟨⟨f, s⟩, hs', hw⟩ := bind_eq_ok.mp hs
    cases hw
    exact hl.handleEnqueueNextFragment hs'
  | startRoundRobin =>
    obtain ⟨s, hs', hw⟩ := bind_eq_ok.mp hs
    cases hw
    exact hl.keeps (runPostedStartRoundRobin_keeps hs')
  | incomingAclCredits h n =>
    obtain ⟨s, hs', hw⟩ := bind_eq_ok.mp hs
    cases hw
    exact hl.incomingAclCredits ha hs'

theorem run {w w' : World} (hw : w.Reachable) (hl : w.Ledger) :
    ∀ {es : List Event}, w.run es = some w' → (∀ e ∈ es, ∀ h, e ≠ .setDisconnect h) →
      (∀ e ∈ es, e.Fits w.scheduler) → w'.Ledger
  | [], hrun, _, _ => by cases hrun; exact hl
  | e :: es, hrun, hd, hfit => by
    unfold World.run at hrun
    split_ifs at hrun with ha
    cases hs : w.step e with
    | error => rw [hs] at hrun; cases hrun
    | ok w₁ =>
      rw [hs] at hrun
      exact Ledger.run (.step hw ha hs)
        (hl.step hw.registrations ha (hd e (List.mem_cons_self _ _))
          (hfit e (List.mem_cons_self _ _)) hs)
        hrun (fun e' he' => hd e' (List.mem_cons_of_mem _ he'))
        (fun e' he' => (hfit e' (List.mem_cons_of_mem _ he')).of_limits (step_queue hs).2)

theorem conserves (hl : w.Ledger) (t : ConnectionType) : w.scheduler.Conserves t := by
  have hsent : w.scheduler.sentOf t = total (fun k => w.scheduler.queuedFor k.1)
      (w.scheduler.kinds.filter fun k => k.2 = t) + w.unreportedOf t := by
    unfold unreportedOf
    rw [total_kinds, total_kinds, ← total_add]
    exact total_congr fun e he =>
      (hl.sent e.1 e.2 (HandleMap.find_of_mem (List.mem_of_mem_filter he))).1
  have := hl.pool t
  unfold Conserves
  rw [hsent, ← queuedOf_eq_total hl.tagged]
  omega

theorem withinMaxima (hl : w.Ledger) : w.scheduler.WithinMaxima := by
  have h₁ := hl.pool .CLASSIC
  have h₂ := hl.pool .LE
  exact ⟨show (w.scheduler.credits .CLASSIC).toNat ≤ (w.scheduler.maxCredits .CLASSIC).toNat by omega,
    show (w.scheduler.credits .LE).toNat ≤ (w.scheduler.maxCredits .LE).toNat by omega⟩

end Ledger

/-- In a run from a fresh scheduler in which no connection is passed to `SetDisconnect` and no
payload could carry a count past 2^16, the ledger holds at the end: each pool plus the counts
of its kind is the buffer count plus the fragments of that kind still queued, and neither pool
is above its maximum. -/
theorem run_conserves_credits {a c : UInt16} {b d : Nat} {es : List Event}
    (hrun : (init a b c d).run es = some w') (hd : ∀ e ∈ es, ∀ h, e ≠ .setDisconnect h)
    (hfit : ∀ e ∈ es, e.Fits (init a b c d).scheduler) :
    w'.Ledger ∧ (∀ t, w'.scheduler.Conserves t) ∧ w'.scheduler.WithinMaxima := by
  have hl := Ledger.run (.init a b c d) (Ledger.init a b c d) hrun hd hfit
  exact ⟨hl, hl.conserves, hl.withinMaxima⟩

/-- A classic and an LE connection: a two-fragment classic payload goes out and is reported,
then a one-byte LE payload goes out. -/
def twoKinds : List Event :=
  [.register .CLASSIC 1, .register .LE 2, .bufferPacket 1 (List.replicate 28 0),
    .handleEnqueueNextFragment, .handleEnqueueNextFragment, .incomingAclCredits 1 2,
    .startRoundRobin, .bufferPacket 2 [7], .handleEnqueueNextFragment]

theorem run_conserves_credits_twoKinds :
    ∃ w', (init 2 27 1 27).run twoKinds = some w' ∧
      (∀ e ∈ twoKinds, ∀ h, e ≠ .setDisconnect h) ∧
      (∀ e ∈ twoKinds, e.Fits (init 2 27 1 27).scheduler) ∧
      w'.Ledger ∧ (∀ t, w'.scheduler.Conserves t) ∧ w'.scheduler.WithinMaxima := by
  obtain ⟨w', hw'⟩ : ∃ w', (init 2 27 1 27).run twoKinds = some w' := ⟨_, rfl⟩
  have hd : ∀ e ∈ twoKinds, ∀ h, e ≠ .setDisconnect h := by simp [twoKinds]
  have hfit : ∀ e ∈ twoKinds, e.Fits (init 2 27 1 27).scheduler := by decide
  exact ⟨w', hw', hd, hfit, run_conserves_credits hw' hd hfit⟩

end World

end Bluetooth.Hci
