import Mathlib.Order.Nat
import TibiaServer.Library.Keyed
import TibiaServer.Login.WaitingList
/-!
# The login queue

What one call of `clientLogin` does to the queue, and what follows for every history of
calls: whether entries that have run out are dropped, and whether clients are let in by
their turn.
-/

namespace TibiaServer.Login

open TibiaServer.Library.Run TibiaServer.Library.Keyed

/-! ## The clean-up -/

namespace WaitList

theorem isStale_iff (time : Time) (w : Wait) : isStale time w = true ↔ w.timeout = time.toSize := by
  unfold isStale
  rw [decide_eq_true_iff]
  bv_omega

/-- The recorded size is the number of entries. -/
def Sized (list : WaitList) : Prop := list.size = BitVec.ofNat 64 list.nodes.length

instance (list : WaitList) : Decidable list.Sized := inferInstanceAs (Decidable (_ = _))

theorem nodes_cleanupList (list : WaitList) (time : Time) :
    (list.cleanupList time).nodes = list.nodes.filter fun w => !isStale time w := by
  obtain ⟨nodes, size⟩ := list
  unfold cleanupList
  induction nodes generalizing size with
  | nil => rfl
  | cons w ws ih =>
    by_cases hw : isStale time w
    · simp [cleanupLoop, hw, ih]
    · simp [cleanupLoop, hw, ih]

theorem size_cleanupLoop (time : Time) (others : Size) (ws : List Wait) :
    (cleanupLoop time ws (BitVec.ofNat 64 ws.length + others)).size =
      BitVec.ofNat 64 (cleanupLoop time ws (BitVec.ofNat 64 ws.length + others)).nodes.length +
        others := by
  induction ws generalizing others with
  | nil => rfl
  | cons w ws ih =>
    rw [List.length_cons, BitVec.ofNat_add, BitVec.add_assoc]
    unfold cleanupLoop
    split
    · have hsize : BitVec.ofNat 64 ws.length + (BitVec.ofNat 64 1 + others) - 1 =
          BitVec.ofNat 64 ws.length + others := by
        bv_omega
      rw [hsize]
      exact ih others
    · dsimp only
      rw [ih, List.length_cons, BitVec.ofNat_add, BitVec.add_assoc]

theorem sized_cleanupList {list : WaitList} (h : list.Sized) (time : Time) :
    (list.cleanupList time).Sized := by
  have hloop := size_cleanupLoop time 0 list.nodes
  unfold cleanupList
  rw [h]
  simpa [Sized] using hloop

theorem guids_cleanupList_sublist (list : WaitList) (time : Time) :
    (list.cleanupList time).guids.Sublist list.guids := by
  unfold guids
  rw [nodes_cleanupList]
  exact List.filter_sublist.map _

theorem guids_emplace_back (list : WaitList) (w : Wait) :
    (list.emplace_back w).guids = list.guids ++ [w.playerGUID] := List.map_append

theorem findIdx?_guid (list : WaitList) (guid : Guid) :
    list.nodes.findIdx? (·.playerGUID = guid) =
      if guid ∈ list.guids then some (list.guids.idxOf guid) else none :=
  findIdx?_key Wait.playerGUID guid list.nodes

end WaitList

/-! ## The two lists as one queue -/

namespace WaitListInfo

/-- No client waits twice. -/
def Unique (info : WaitListInfo) : Prop := info.guids.Nodup

def Sized (info : WaitListInfo) : Prop := ∀ holder, (info.list holder).Sized

section Search

variable {info : WaitListInfo} {guid : Guid}

theorem mem_guids : guid ∈ info.guids ↔ ∃ holder, guid ∈ (info.list holder).guids := by
  unfold guids
  rw [List.mem_append]
  constructor
  · rintro (h | h)
    · exact ⟨.priorityWaitList, h⟩
    · exact ⟨.waitList, h⟩
  · rintro ⟨_ | _, h⟩
    · exact Or.inl h
    · exact Or.inr h

theorem Unique.nodup (h : info.Unique) (holder : Holder) : (info.list holder).guids.Nodup := by
  cases holder with
  | priorityWaitList => exact (List.nodup_append.mp h).1
  | waitList => exact (List.nodup_append.mp h).2.1

/-- A client waits in one of the lists only. -/
theorem Unique.notMem (h : info.Unique) {holder other : Holder} (hne : other ≠ holder)
    (hmem : guid ∈ (info.list holder).guids) : guid ∉ (info.list other).guids := by
  have hdisjoint := (List.nodup_append.mp h).2.2
  intro hother
  cases holder <;> cases other
  · exact hne rfl
  · exact hdisjoint _ hmem _ hother rfl
  · exact hdisjoint _ hother _ hmem rfl
  · exact hne rfl

theorem unique_cleanup (h : info.Unique) (time : Time) : (info.cleanup time).Unique :=
  h.sublist ((WaitList.guids_cleanupList_sublist _ time).append
    (WaitList.guids_cleanupList_sublist _ time))

theorem list_cleanup (info : WaitListInfo) (time : Time) (holder : Holder) :
    (info.cleanup time).list holder = (info.list holder).cleanupList time := by
  cases holder <;> rfl

/-- The slot is one more than the number of clients ahead. -/
theorem findClient_of_mem (h : guid ∈ info.guids) : ∃ holder,
    guid ∈ (info.list holder).guids ∧ info.findClient guid =
      (some (holder, (info.list holder).guids.idxOf guid), 1 + info.guids.idxOf guid) := by
  unfold findClient
  rw [WaitList.findIdx?_guid, WaitList.findIdx?_guid]
  by_cases hp : guid ∈ info.priorityWaitList.guids
  · refine ⟨.priorityWaitList, hp, ?_⟩
    unfold guids
    rw [if_pos hp, List.idxOf_append_of_mem hp]
    rfl
  · have hw : guid ∈ info.waitList.guids := (List.mem_append.mp h).resolve_left hp
    refine ⟨.waitList, hw, ?_⟩
    have hlength : info.priorityWaitList.guids.length = info.priorityWaitList.nodes.length :=
      List.length_map _
    unfold guids
    rw [if_neg hp, if_pos hw, List.idxOf_append_of_notMem hp, hlength, ← Nat.add_assoc]
    rfl

theorem findClient_of_notMem (h : guid ∉ info.guids) :
    ∃ slot, info.findClient guid = (none, slot) := by
  have hp : guid ∉ info.priorityWaitList.guids := fun hp => h (List.mem_append_left _ hp)
  have hw : guid ∉ info.waitList.guids := fun hw => h (List.mem_append_right _ hw)
  unfold findClient
  rw [WaitList.findIdx?_guid, WaitList.findIdx?_guid, if_neg hp, if_neg hw]
  exact ⟨_, rfl⟩

/-! ## Writes -/

/-- Erasing takes the client out of the list that holds it. -/
theorem nodes_erase (h : info.Unique) {holder : Holder}
    (hmem : guid ∈ (info.list holder).guids) (other : Holder) :
    ((info.erase (holder, (info.list holder).guids.idxOf guid)).list other).nodes =
      (info.list other).nodes.filter fun w => decide (w.playerGUID ≠ guid) := by
  by_cases hother : other = holder
  · subst hother
    have herase := eraseIdx_key Wait.playerGUID (k := guid) (h.nodup other)
    cases other with
    | priorityWaitList => exact herase
    | waitList => exact herase
  · have hnot := filter_key_of_notMem Wait.playerGUID (h.notMem hother hmem)
    rw [hnot]
    cases holder <;> cases other
    · exact absurd rfl hother
    · rfl
    · rfl
    · exact absurd rfl hother

theorem guids_erase (h : info.Unique) {holder : Holder}
    (hmem : guid ∈ (info.list holder).guids) (other : Holder) :
    ((info.erase (holder, (info.list holder).guids.idxOf guid)).list other).guids =
      (info.list other).guids.filter fun x => decide (x ≠ guid) := by
  calc
    _ = ((info.list other).nodes.filter fun w => decide (w.playerGUID ≠ guid)).map
          Wait.playerGUID := congrArg (List.map Wait.playerGUID) (nodes_erase h hmem other)
    _ = _ := (List.filter_map (f := Wait.playerGUID) (p := fun x => decide (x ≠ guid))).symm

theorem nodes_setTimeout (h : info.Unique) (timeout : Size) {holder : Holder}
    (hmem : guid ∈ (info.list holder).guids) (other : Holder) :
    ((info.setTimeout timeout (holder, (info.list holder).guids.idxOf guid)).list other).nodes =
      (info.list other).nodes.map fun w =>
        if w.playerGUID = guid then { w with timeout := timeout } else w := by
  by_cases hother : other = holder
  · subst hother
    have hmodify := modify_key Wait.playerGUID (k := guid)
      (fun w : Wait => { w with timeout := timeout }) (h.nodup other)
    cases other with
    | priorityWaitList => exact hmodify
    | waitList => exact hmodify
  · have hnot : (info.list other).nodes.map (fun w =>
        if w.playerGUID = guid then { w with timeout := timeout } else w) =
          (info.list other).nodes := by
      refine (List.map_congr_left fun w hw => ?_).trans (List.map_id _)
      refine if_neg fun heq => h.notMem hother hmem ?_
      exact List.mem_map.mpr ⟨w, hw, heq⟩
    rw [hnot]
    cases holder <;> cases other
    · exact absurd rfl hother
    · rfl
    · rfl
    · exact absurd rfl hother

end Search

end WaitListInfo

/-! ## One call -/

namespace Call

variable {call : Call} {info : WaitListInfo}

/-- The call lets nobody in before it has cleaned the lists up. -/
def Reaches (call : Call) (info : WaitListInfo) : Prop := call.passes info = false

/-- The entries that are still there when the client is searched for. -/
def kept (call : Call) (info : WaitListInfo) : WaitListInfo :=
  if call.passes info then info else info.cleanup call.time

theorem kept_of_passes (h : call.passes info = true) : call.kept info = info := if_pos h

theorem kept_of_reaches (h : call.Reaches info) : call.kept info = info.cleanup call.time := by
  unfold kept
  rw [h]
  rfl

theorem unique_kept (call : Call) (h : info.Unique) : (call.kept info).Unique := by
  unfold kept
  split
  · exact h
  · exact WaitListInfo.unique_cleanup h call.time

theorem sized_kept (call : Call) (h : info.Sized) : (call.kept info).Sized := by
  unfold kept
  split
  · exact h
  · intro holder
    rw [WaitListInfo.list_cleanup]
    exact WaitList.sized_cleanupList (h holder) call.time

/-- The ways through `clientLogin`. -/
inductive Outcome (call : Call) (info : WaitListInfo) : Bool × WaitListInfo → Prop
  | passed (h : call.passes info = true) : Outcome call info (true, call.kept info)
  | admitted (holder : Holder) (h : call.Reaches info)
      (hmem : call.player.guid ∈ ((call.kept info).list holder).guids)
      (hroom : call.playersOnline + (1 + (call.kept info).guids.idxOf call.player.guid) ≤
        call.maxPlayers.toNat) :
      Outcome call info (true, (call.kept info).erase
        (holder, ((call.kept info).list holder).guids.idxOf call.player.guid))
  | waiting (holder : Holder) (slot : Size) (h : call.Reaches info)
      (hmem : call.player.guid ∈ ((call.kept info).list holder).guids)
      (hroom : ¬call.playersOnline + (1 + (call.kept info).guids.idxOf call.player.guid) ≤
        call.maxPlayers.toNat) :
      Outcome call info (false, (call.kept info).setTimeout (call.timeout slot)
        (holder, ((call.kept info).list holder).guids.idxOf call.player.guid))
  | enqueued (h : call.Reaches info) (hnot : call.player.guid ∉ (call.kept info).guids) :
      Outcome call info (false, call.enqueue (call.kept info))

theorem outcome (call : Call) (info : WaitListInfo) :
    Outcome call info (call.clientLogin info) := by
  unfold clientLogin
  by_cases h : call.passes info = true
  · rw [if_pos h]
    have hpassed := Outcome.passed h
    rwa [kept_of_passes h] at hpassed
  · rw [if_neg h]
    replace h : call.Reaches info := Bool.eq_false_iff.mpr h
    rw [← kept_of_reaches h]
    by_cases hmem : call.player.guid ∈ (call.kept info).guids
    · obtain ⟨holder, hholder, hfind⟩ := WaitListInfo.findClient_of_mem hmem
      simp only [hfind, retry]
      split
      next hroom => exact Outcome.admitted holder h hholder hroom
      next hroom => exact Outcome.waiting holder _ h hholder hroom
    · obtain ⟨slot, hfind⟩ := WaitListInfo.findClient_of_notMem hmem
      simp only [hfind]
      exact Outcome.enqueued h hmem

theorem guids_setTimeout (info : WaitListInfo) (timeout : Size) (it : Holder × ℕ)
    (other : Holder) : ((info.setTimeout timeout it).list other).guids =
      (info.list other).guids := by
  obtain ⟨_ | _, i⟩ := it <;> cases other
  · exact map_key_modify _ _ fun _ => rfl
  · rfl
  · rfl
  · exact map_key_modify _ _ fun _ => rfl

/-- The list that a new client is put into. -/
def queueOf (call : Call) : Holder :=
  if call.player.isPremium then .priorityWaitList else .waitList

theorem list_enqueue (call : Call) (info : WaitListInfo) : ∃ slot,
    (call.enqueue info).list call.queueOf = (info.list call.queueOf).emplace_back
      ⟨call.timeout slot, call.player.guid⟩ ∧
    ∀ other, other ≠ call.queueOf → (call.enqueue info).list other = info.list other := by
  unfold enqueue queueOf
  by_cases hpremium : call.player.isPremium = true
  · rw [if_pos hpremium, if_pos hpremium]
    refine ⟨_, rfl, fun other hother => ?_⟩
    cases other with
    | priorityWaitList => exact absurd rfl hother
    | waitList => rfl
  · rw [if_neg hpremium, if_neg hpremium]
    refine ⟨_, rfl, fun other hother => ?_⟩
    cases other with
    | priorityWaitList => rfl
    | waitList => exact absurd rfl hother

theorem guids_enqueue_perm (call : Call) (info : WaitListInfo) :
    (call.enqueue info).guids.Perm (call.player.guid :: info.guids) := by
  unfold enqueue WaitListInfo.guids
  split
  · rw [WaitList.guids_emplace_back, List.append_assoc]
    exact List.perm_middle
  · rw [WaitList.guids_emplace_back, ← List.append_assoc]
    exact List.perm_append_singleton _ _

/-- A client is searched for before it is put into the queue. -/
theorem unique_clientLogin (call : Call) (h : info.Unique) : (call.clientLogin info).2.Unique := by
  have hkept := unique_kept call h
  have hout := outcome call info
  generalize call.clientLogin info = result at hout
  cases hout with
  | passed _ => exact hkept
  | admitted holder _ hmem _ =>
    have hsublist (other : Holder) :
        (((call.kept info).erase (holder, ((call.kept info).list holder).guids.idxOf
          call.player.guid)).list other).guids.Sublist ((call.kept info).list other).guids := by
      rw [WaitListInfo.guids_erase hkept hmem other]
      exact List.filter_sublist
    exact hkept.sublist ((hsublist .priorityWaitList).append (hsublist .waitList))
  | waiting holder slot _ _ _ =>
    have hguids := guids_setTimeout (call.kept info) (call.timeout slot)
      (holder, ((call.kept info).list holder).guids.idxOf call.player.guid)
    have hpriority := hguids .priorityWaitList
    have hwait := hguids .waitList
    unfold WaitListInfo.Unique WaitListInfo.guids
    exact (congrArg₂ (· ++ ·) hpriority hwait) ▸ hkept
  | enqueued _ hnot =>
    exact (guids_enqueue_perm call _).nodup_iff.mpr (List.nodup_cons.mpr ⟨hnot, hkept⟩)

end Call

/-!
## Entries that have run out

The clean-up compares an unsigned difference with zero, so it drops an entry at the very
millisecond of its timeout and at no other time.  Whether a history keeps only entries that
are still good depends on the other clients alone: each of them has to come back in time.
-/

theorem toNat_toSize (time : Time) : time.toSize.toNat = time := by
  have htime := time.isLt
  unfold Time.toSize
  rw [BitVec.toNat_ofNat]
  exact Nat.mod_eq_of_lt (by omega)

theorem getTimeout_bounds (slot : Size) :
    20 ≤ (getTimeout slot).toNat ∧ (getTimeout slot).toNat ≤ 135 := by
  unfold getTimeout getTime
  split
  · decide
  split
  · decide
  split
  · decide
  split
  · decide
  · decide

namespace Call

variable {call : Call} {info : WaitListInfo}

theorem time_lt_timeout (call : Call) (slot : Size) :
    (call.time : ℕ) < (call.timeout slot).toNat := by
  have hbounds := getTimeout_bounds slot
  have htime := toNat_toSize call.time
  have hlt := call.time.isLt
  unfold timeout
  rw [BitVec.toNat_add, BitVec.toNat_mul, htime]
  have hproduct : (getTimeout slot).toNat * (1000 : Size).toNat % 2 ^ 64 =
      (getTimeout slot).toNat * 1000 := Nat.mod_eq_of_lt (by simp; omega)
  rw [hproduct, Nat.mod_eq_of_lt (by omega)]
  omega

/-- An entry of another client is left alone. -/
theorem mem_clientLogin_of_ne (h : info.Unique) (holder : Holder) {w : Wait}
    (hne : w.playerGUID ≠ call.player.guid) :
    w ∈ ((call.clientLogin info).2.list holder).nodes ↔
      w ∈ ((call.kept info).list holder).nodes := by
  have hkept := unique_kept call h
  have hout := outcome call info
  generalize call.clientLogin info = result at hout
  cases hout with
  | passed _ => exact Iff.rfl
  | admitted _ _ hmem _ =>
    rw [WaitListInfo.nodes_erase hkept hmem holder, List.mem_filter]
    exact and_iff_left (decide_eq_true hne)
  | waiting _ slot _ hmem _ =>
    rw [WaitListInfo.nodes_setTimeout hkept _ hmem holder, List.mem_map]
    constructor
    · rintro ⟨v, hv, rfl⟩
      split at hne
      next heq => exact absurd heq hne
      next hne' => rwa [if_neg hne']
    · intro hw
      exact ⟨w, hw, if_neg hne⟩
  | enqueued _ _ =>
    obtain ⟨slot, hqueue, hother⟩ := list_enqueue call (call.kept info)
    by_cases hholder : holder = call.queueOf
    · subst hholder
      rw [hqueue]
      unfold WaitList.emplace_back
      rw [List.mem_append, List.mem_singleton]
      refine or_iff_left fun heq => ?_
      exact hne (congrArg Wait.playerGUID heq)
    · rw [hother holder hholder]

/-- What is left of the caller has a new timeout. -/
theorem timeout_clientLogin (h : info.Unique) (hreaches : call.Reaches info) (holder : Holder)
    {w : Wait} (hw : w ∈ ((call.clientLogin info).2.list holder).nodes)
    (hguid : w.playerGUID = call.player.guid) : ∃ slot, w.timeout = call.timeout slot := by
  have hkept := unique_kept call h
  have hout := outcome call info
  generalize call.clientLogin info = result at hout hw
  cases hout with
  | passed hpasses => exact nomatch hpasses.symm.trans hreaches
  | admitted _ _ hmem _ =>
    rw [WaitListInfo.nodes_erase hkept hmem holder, List.mem_filter] at hw
    exact absurd hguid (of_decide_eq_true hw.2)
  | waiting _ slot _ hmem _ =>
    rw [WaitListInfo.nodes_setTimeout hkept _ hmem holder, List.mem_map] at hw
    obtain ⟨v, hv, rfl⟩ := hw
    split at hguid
    next heq => exact ⟨slot, by rw [if_pos heq]⟩
    next hne => exact absurd hguid hne
  | enqueued _ hnot =>
    obtain ⟨slot, hqueue, hother⟩ := list_enqueue call (call.kept info)
    have hold : w ∉ ((call.kept info).list holder).nodes := fun hmem =>
      hnot (WaitListInfo.mem_guids.mpr ⟨holder, List.mem_map.mpr ⟨w, hmem, hguid⟩⟩)
    by_cases hholder : holder = call.queueOf
    · subst hholder
      rw [hqueue] at hw
      unfold WaitList.emplace_back at hw
      rw [List.mem_append, List.mem_singleton] at hw
      exact ⟨slot, congrArg Wait.timeout (hw.resolve_left hold)⟩
    · rw [hother holder hholder] at hw
      exact absurd hw hold

/-- After a call that reaches the clean-up, every entry's timeout is still to come. -/
def DropsStale (call : Call) (info : WaitListInfo) : Prop :=
  call.Reaches info → ∀ holder, ∀ w ∈ ((call.clientLogin info).2.list holder).nodes,
    (call.time : ℕ) < w.timeout.toNat

/-- When a call reaches the clean-up, nobody but the caller is past his timeout. -/
def OthersInTime (call : Call) (info : WaitListInfo) : Prop :=
  call.Reaches info → ∀ holder, ∀ w ∈ (info.list holder).nodes,
    w.playerGUID ≠ call.player.guid → (call.time : ℕ) ≤ w.timeout.toNat

theorem mem_kept (hreaches : call.Reaches info) (holder : Holder) (w : Wait) :
    w ∈ ((call.kept info).list holder).nodes ↔
      w ∈ (info.list holder).nodes ∧ w.timeout.toNat ≠ call.time := by
  rw [kept_of_reaches hreaches, WaitListInfo.list_cleanup, WaitList.nodes_cleanupList,
    List.mem_filter]
  refine and_congr_right fun _ => ?_
  have htime := toNat_toSize call.time
  rw [Bool.not_eq_true', Bool.eq_false_iff, Ne, WaitList.isStale_iff, ← BitVec.toNat_inj, htime]

theorem dropsStale_iff_of_unique (h : info.Unique) :
    call.DropsStale info ↔ call.OthersInTime info := by
  refine imp_congr_right fun hreaches => forall_congr' fun holder => ?_
  constructor
  · intro hdrops w hw hne
    by_cases htime : w.timeout.toNat = call.time
    · exact htime.ge
    · have hkept := (mem_kept hreaches holder w).mpr ⟨hw, htime⟩
      exact (hdrops w ((mem_clientLogin_of_ne h holder hne).mpr hkept)).le
  · intro hothers w hw
    by_cases hguid : w.playerGUID = call.player.guid
    · obtain ⟨slot, htimeout⟩ := timeout_clientLogin h hreaches holder hw hguid
      rw [htimeout]
      exact time_lt_timeout call slot
    · have hkept := (mem_clientLogin_of_ne h holder hguid).mp hw
      obtain ⟨hold, htime⟩ := (mem_kept hreaches holder w).mp hkept
      exact lt_of_le_of_ne (hothers w hold hguid) (Ne.symm htime)

end Call

theorem unique_step (info : WaitListInfo) (call : Call) (next : WaitListInfo)
    (h : info.Unique) (hstep : step info call = some next) : next.Unique := by
  obtain rfl := Option.some.inj hstep
  exact Call.unique_clientLogin call h

/-- A history leaves no entry behind that has run out exactly when each waiting client comes
back before a later caller finds his entry past its timeout. -/
theorem stale_entries_dropped_iff (calls : List Call) :
    EachStep step (fun info call => call.DropsStale info) .empty calls ↔
      EachStep step (fun info call => call.OthersInTime info) .empty calls :=
  eachStep_congr (I := WaitListInfo.Unique)
    (fun info call next h _ hstep => unique_step info call next h hstep)
    (fun _ _ _ h _ => Call.dropsStale_iff_of_unique h) calls .empty List.nodup_nil

/-- A client called once and gave up; his entry is ten seconds past its timeout. -/
theorem gone_client_keeps_his_slot :
    let gone : Player := ⟨1, false, .ACCOUNT_TYPE_NORMAL, false⟩
    let caller : Player := ⟨2, false, .ACCOUNT_TYPE_NORMAL, false⟩
    ¬EachStep step (fun info call => call.DropsStale info) .empty
      [⟨gone, 1500000000000, 1, 1⟩, ⟨caller, 1500000030000, 1, 1⟩] := by
  intro gone caller h
  have hdrops := ((h _ rfl).2 _ rfl).1 rfl .waitList ⟨1500000020000, 1⟩ (by decide)
  exact absurd hdrops (by decide)

end TibiaServer.Login
