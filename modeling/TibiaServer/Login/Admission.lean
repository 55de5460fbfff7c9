import TibiaServer.Login.LoginQueue
/-!
# Clients are let in by their turn

An admitted client is erased through `waitList`, whichever list holds him.  The entries come
out right, but the recorded sizes do not once a client of the priority list is let in.
-/

namespace TibiaServer.Login

open TibiaServer.Library.Run TibiaServer.Library.Keyed

/-- What a call does to the queue when all goes well. -/
structure Call.Served (call : Call) (info : WaitListInfo) : Prop where
  unique : (call.clientLogin info).2.Unique
  sizes : (call.clientLogin info).2.Sized
  removed : (call.clientLogin info).1 = true → ∀ holder,
    ((call.clientLogin info).2.list holder).nodes =
      ((call.kept info).list holder).nodes.filter fun w =>
        decide (w.playerGUID ≠ call.player.guid)
  room : (call.clientLogin info).1 = true → call.player.guid ∈ (call.kept info).guids →
    call.playersOnline + (call.kept info).guids.idxOf call.player.guid + 1 ≤
      call.maxPlayers.toNat
  order : ∀ holder x y,
    x ∈ ((call.kept info).list holder).guids → y ∈ ((call.kept info).list holder).guids →
    x ∈ ((call.clientLogin info).2.list holder).guids →
    y ∈ ((call.clientLogin info).2.list holder).guids →
    ([x, y].Sublist ((call.clientLogin info).2.list holder).guids ↔
      [x, y].Sublist (info.list holder).guids)

/-- No turn comes in the priority list, and nobody waits who may log in without a turn. -/
structure Call.InTurn (call : Call) (info : WaitListInfo) : Prop where
  priority : call.Reaches info →
    call.player.guid ∈ (info.priorityWaitList.cleanupList call.time).guids →
    call.maxPlayers.toNat < call.playersOnline +
      (info.priorityWaitList.cleanupList call.time).guids.idxOf call.player.guid + 1
  passing : ¬call.Reaches info → call.player.guid ∉ info.guids

namespace WaitList

theorem length_eraseIdx {list : WaitList} {guid : Guid} (hmem : guid ∈ list.guids) :
    list.nodes.length = (list.nodes.eraseIdx (list.guids.idxOf guid)).length + 1 := by
  have hlt : list.guids.idxOf guid < list.nodes.length := by
    have hidx := List.idxOf_lt_length_of_mem hmem
    rwa [guids, List.length_map] at hidx
  rw [List.length_eraseIdx_of_lt hlt]
  omega

theorem sized_emplace_back {list : WaitList} (h : list.Sized) (w : Wait) :
    (list.emplace_back w).Sized := by
  unfold Sized emplace_back
  rw [List.length_append, BitVec.ofNat_add, h]
  rfl

end WaitList

namespace WaitListInfo

variable {info : WaitListInfo} {guid : Guid}

/-- The recorded sizes survive the erasing when the client is in `waitList`. -/
theorem sized_erase_waitList (h : info.Sized) (hmem : guid ∈ info.waitList.guids) :
    (info.erase (.waitList, info.waitList.guids.idxOf guid)).Sized := by
  intro holder
  cases holder with
  | priorityWaitList => exact h .priorityWaitList
  | waitList =>
    have hsize : info.waitList.size = BitVec.ofNat 64 info.waitList.nodes.length := h .waitList
    rw [WaitList.length_eraseIdx hmem, BitVec.ofNat_add] at hsize
    exact (congrArg (· - 1) hsize).trans (BitVec.add_sub_cancel _ _)

/-- They do not when the client is in the priority list. -/
theorem not_sized_erase_priorityWaitList (h : info.Sized)
    (hmem : guid ∈ info.priorityWaitList.guids) :
    ¬(info.erase (.priorityWaitList, info.priorityWaitList.guids.idxOf guid)).Sized := by
  intro hsized
  have hold : info.priorityWaitList.size = BitVec.ofNat 64 info.priorityWaitList.nodes.length :=
    h .priorityWaitList
  have hnew : info.priorityWaitList.size = BitVec.ofNat 64
      (info.priorityWaitList.nodes.eraseIdx (info.priorityWaitList.guids.idxOf guid)).length :=
    hsized .priorityWaitList
  rw [WaitList.length_eraseIdx hmem, BitVec.ofNat_add, hnew] at hold
  bv_omega

theorem sized_setTimeout (h : info.Sized) (timeout : Size) (it : Holder × ℕ) :
    (info.setTimeout timeout it).Sized := by
  intro holder
  have hold := h holder
  obtain ⟨_ | _, i⟩ := it <;> cases holder
  · exact hold.trans (by simp [setTimeout, list])
  · exact hold
  · exact hold
  · exact hold.trans (by simp [setTimeout, list])

end WaitListInfo

namespace Call

variable {call : Call} {info : WaitListInfo}

theorem sized_enqueue (call : Call) (h : info.Sized) : (call.enqueue info).Sized := by
  intro holder
  unfold enqueue
  split <;> cases holder
  · exact WaitList.sized_emplace_back (h .priorityWaitList) _
  · exact h .waitList
  · exact h .priorityWaitList
  · exact WaitList.sized_emplace_back (h .waitList) _

theorem guids_kept_sublist (call : Call) (info : WaitListInfo) (holder : Holder) :
    ((call.kept info).list holder).guids.Sublist (info.list holder).guids := by
  unfold kept
  split
  · exact List.Sublist.refl _
  · rw [WaitListInfo.list_cleanup]
    exact WaitList.guids_cleanupList_sublist _ _

/-- Two clients that stay in a list do not change places. -/
theorem order_clientLogin (h : info.Unique) (holder : Holder) (x y : Guid)
    (hx : x ∈ ((call.kept info).list holder).guids)
    (hy : y ∈ ((call.kept info).list holder).guids)
    (hx' : x ∈ ((call.clientLogin info).2.list holder).guids)
    (hy' : y ∈ ((call.clientLogin info).2.list holder).guids) :
    [x, y].Sublist ((call.clientLogin info).2.list holder).guids ↔
      [x, y].Sublist (info.list holder).guids := by
  have hkept := unique_kept call h
  have hkeptOrder := pair_sublist_of_sublist (guids_kept_sublist call info holder)
    (h.nodup holder) hx hy
  rw [← hkeptOrder]
  have hout := outcome call info
  generalize call.clientLogin info = result at hout hx' hy'
  cases hout with
  | passed _ => exact Iff.rfl
  | admitted _ _ hmem _ =>
    rw [WaitListInfo.guids_erase hkept hmem holder] at hx' hy' ⊢
    exact pair_sublist_of_sublist List.filter_sublist (hkept.nodup holder) hx' hy'
  | waiting _ _ _ _ _ => rw [guids_setTimeout]
  | enqueued _ hnot =>
    obtain ⟨slot, hqueue, hother⟩ := list_enqueue call (call.kept info)
    by_cases hholder : holder = call.queueOf
    · subst hholder
      have hne : y ≠ call.player.guid := fun heq =>
        hnot (heq ▸ WaitListInfo.mem_guids.mpr ⟨_, hy⟩)
      rw [hqueue, WaitList.guids_emplace_back]
      exact pair_sublist_append hne
    · rw [hother holder hholder]

theorem sized_clientLogin (hsized : info.Sized) (hturn : call.InTurn info) :
    (call.clientLogin info).2.Sized := by
  have hkept := sized_kept call hsized
  have hout := outcome call info
  generalize call.clientLogin info = result at hout
  cases hout with
  | passed _ => exact hkept
  | admitted holder hreaches hmem hroom =>
    cases holder with
    | waitList => exact WaitListInfo.sized_erase_waitList hkept hmem
    | priorityWaitList =>
      -- the guard says that the room is not there
      have hpriority := hturn.priority hreaches
      rw [kept_of_reaches hreaches] at hmem hroom
      have hahead : (info.cleanup call.time).guids.idxOf call.player.guid =
          (info.priorityWaitList.cleanupList call.time).guids.idxOf call.player.guid :=
        List.idxOf_append_of_mem hmem
      have hfull := hpriority hmem
      omega
  | waiting _ _ _ _ _ => exact WaitListInfo.sized_setTimeout hkept _ _
  | enqueued _ _ => exact sized_enqueue call hkept

theorem served_of_inTurn (h : info.Unique) (hsized : info.Sized) (hturn : call.InTurn info) :
    call.Served info where
  unique := unique_clientLogin call h
  sizes := sized_clientLogin hsized hturn
  removed hadmitted holder := by
    have hkept := unique_kept call h
    have hout := outcome call info
    generalize call.clientLogin info = result at hout hadmitted
    cases hout with
    | passed hpasses =>
      have hnot := hturn.passing (fun hreaches => nomatch hpasses.symm.trans hreaches)
      rw [kept_of_passes hpasses]
      refine (filter_key_of_notMem Wait.playerGUID fun hmem => hnot ?_).symm
      exact WaitListInfo.mem_guids.mpr ⟨holder, hmem⟩
    | admitted _ _ hmem _ => exact WaitListInfo.nodes_erase hkept hmem holder
    | waiting _ _ _ _ _ => exact nomatch hadmitted
    | enqueued _ _ => exact nomatch hadmitted
  room hadmitted hmem := by
    have hout := outcome call info
    generalize call.clientLogin info = result at hout hadmitted
    cases hout with
    | passed hpasses =>
      have hnot := hturn.passing (fun hreaches => nomatch hpasses.symm.trans hreaches)
      rw [kept_of_passes hpasses] at hmem
      exact absurd hmem hnot
    | admitted _ _ _ hroom => omega
    | waiting _ _ _ _ _ => exact nomatch hadmitted
    | enqueued _ _ => exact nomatch hadmitted
  order holder x y := order_clientLogin h holder x y

theorem inTurn_of_served (h : info.Unique) (hsized : info.Sized) (hserved : call.Served info) :
    call.InTurn info where
  priority hreaches hmem := by
    by_contra hroom
    have hunique := unique_kept call h
    have hkept := sized_kept call hsized
    have hsizes := hserved.sizes
    have hmem' : call.player.guid ∈ ((call.kept info).list .priorityWaitList).guids := by
      rw [kept_of_reaches hreaches]
      exact hmem
    have hahead : (call.kept info).guids.idxOf call.player.guid =
        (info.priorityWaitList.cleanupList call.time).guids.idxOf call.player.guid := by
      rw [kept_of_reaches hreaches]
      exact List.idxOf_append_of_mem hmem
    have hout := outcome call info
    generalize call.clientLogin info = result at hout hsizes
    cases hout with
    | passed hpasses => exact nomatch hpasses.symm.trans hreaches
    | admitted holder _ hholder _ =>
      cases holder with
      | waitList => exact hunique.notMem (by decide) hmem' hholder
      | priorityWaitList =>
        exact WaitListInfo.not_sized_erase_priorityWaitList hkept hholder hsizes
    | waiting _ _ _ _ hfull => omega
    | enqueued _ hnot => exact hnot (WaitListInfo.mem_guids.mpr ⟨_, hmem'⟩)
  passing hpasses hmem := by
    obtain ⟨holder, hmem⟩ := WaitListInfo.mem_guids.mp hmem
    have hpasses : call.passes info = true := by
      rwa [Reaches, Bool.not_eq_false] at hpasses
    have hresult : call.clientLogin info = (true, info) := if_pos hpasses
    have hremoved := hserved.removed
    rw [hresult, kept_of_passes hpasses] at hremoved
    obtain ⟨w, hw, hguid⟩ := List.mem_map.mp hmem
    rw [hremoved rfl holder, List.mem_filter] at hw
    exact of_decide_eq_true hw.2 hguid

end Call

/-- A history serves every client as the queue means to exactly when no turn comes in the
priority list and nobody waits who may pass the queue by. -/
theorem queue_correct_iff (calls : List Call) :
    EachStep step (fun info call => call.Served info) .empty calls ↔
      EachStep step (fun info call => call.InTurn info) .empty calls := by
  refine eachStep_congr (I := fun info : WaitListInfo => info.Unique ∧ info.Sized) ?_ ?_
    calls WaitListInfo.empty ?_
  · intro info call next _ hserved hstep
    obtain rfl := Option.some.inj hstep
    exact ⟨hserved.unique, hserved.sizes⟩
  · intro info call _ h _
    exact ⟨Call.inTurn_of_served h.1 h.2, Call.served_of_inTurn h.1 h.2⟩
  · refine ⟨List.nodup_nil, fun holder => ?_⟩
    cases holder <;> rfl

/-- A premium client waits, a place becomes free, and he is let in. -/
theorem premium_turn_breaks_the_sizes :
    let premium : Player := ⟨1, false, .ACCOUNT_TYPE_NORMAL, true⟩
    ¬EachStep step (fun info call => call.Served info) .empty
      [⟨premium, 1500000000000, 1, 1⟩, ⟨premium, 1500000005000, 1, 0⟩] := by
  intro premium h
  have hsizes := ((h _ rfl).2 _ rfl).1.sizes .priorityWaitList
  exact absurd hsizes (by decide)

end TibiaServer.Login
