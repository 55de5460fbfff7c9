import TibiaServer.IOLoginData.PlayerItems
/-!
# Reward chest and inbox

The rewards are numbered from 1, and a number below 100 is what tells a reward from the
items in it when they are loaded.  As long as fewer than 100 rewards are stored each of
them comes back with what was in it, and so does an inbox of no more rows than the query
returns.
-/

namespace TibiaServer.IOLoginData

open TibiaServer.Database TibiaServer.Library

/-- The rewards that are stored. -/
def keptRewards (ctx : SaveContext) (player : Player) : List (ℕ × Item) :=
  player.rewardMap.filter fun (rewardId, reward) =>
    !reward.itemList.isEmpty && decide (ctx.time - rewardId ≤ 60 * 60 * 24 * 7)

/-- The result of the query for the inbox: `ORDER BY sid DESC LIMIT 5000`. -/
def inboxResult (rows : List ItemRow) : List ItemRow := (orderedBySid rows).take 5000

/-! ## The rewards -/

section Rewards

variable (ctx : SaveContext) (player : Player) (date : Created → ℕ)

theorem rewardList_eq :
    rewardList ctx player =
      ((keptRewards ctx player).zipIdx 1).map fun e => ((e.2 : ℤ), e.1.2) := rfl

/-- The rows of the top level. -/
abbrev rewardRows : List Numbered := numberBlock 100 (rewardList ctx player)

/-- The rewards in the place of their rows. -/
def rewardThing (n : Numbered) : Thing :=
  if isTopPid n.pid then newReward (date n.item.created) else rowThing n

/-- What the code keeps about the rewards: each is a container and has its key for a date. -/
structure WellKept : Prop where
  keys : (player.rewardMap.map Prod.fst).Nodup
  isContainer : ∀ reward ∈ player.rewardMap, reward.2.isContainer = true
  date : ∀ reward ∈ player.rewardMap, date reward.2.created = reward.1

variable {ctx player date} {n : Numbered}

theorem mem_rewardList {e : ℤ × Item} (h : e ∈ rewardList ctx player) :
    ∃ rewardId, (rewardId, e.2) ∈ keptRewards ctx player ∧
      1 ≤ e.1 ∧ e.1 ≤ (keptRewards ctx player).length := by
  rw [rewardList_eq, List.mem_map] at h
  obtain ⟨kept, hkept, rfl⟩ := h
  obtain ⟨hlow, hhigh, hget⟩ := List.mem_zipIdx hkept
  refine ⟨kept.1.1, ?_, by dsimp only; omega, by dsimp only; omega⟩
  exact hget ▸ List.getElem_mem _

theorem isTopPid_of_mem_rewardList (hcount : (keptRewards ctx player).length ≤ 99)
    {e : ℤ × Item} (h : e ∈ rewardList ctx player) : isTopPid e.1 = true := by
  obtain ⟨rewardId, -, hlow, hhigh⟩ := mem_rewardList h
  exact decide_eq_true (by omega)

theorem isTopPid_of_mem_rewardRows (hcount : (keptRewards ctx player).length ≤ 99)
    (h : n ∈ rewardRows ctx player) : isTopPid n.pid = true :=
  isTopPid_of_mem_rewardList hcount (mem_of_mem_numberBlock h)

theorem mem_rewardRows_of_isTopPid (h : n ∈ numberItems (rewardList ctx player))
    (hpid : isTopPid n.pid = true) : n ∈ rewardRows ctx player := by
  rcases exists_container h with hblock | ⟨m, hm, -, hparent⟩
  · exact hblock
  · have hlt := lt_sid hm
    have hrange := of_decide_eq_true hpid
    omega

/-- The dates of the rows are the keys of the rewards. -/
theorem map_date_rewardRows (hkept : WellKept player date) :
    (rewardRows ctx player).map (fun n => date n.item.created) =
      (keptRewards ctx player).map Prod.fst := by
  have hrows := congrArg (List.map fun e : ℤ × Item => date e.2.created)
    (map_numberBlock 100 (rewardList ctx player))
  rw [List.map_map, rewardList_eq, List.map_map] at hrows
  have hfst : ((keptRewards ctx player).zipIdx 1).map (fun e => date e.1.2.created) =
      (keptRewards ctx player).map fun reward => date reward.2.created := by
    conv_rhs => rw [← List.zipIdx_map_fst 1 (keptRewards ctx player), List.map_map]
    rfl
  have hdates : (keptRewards ctx player).map (fun reward => date reward.2.created) =
      (keptRewards ctx player).map Prod.fst :=
    List.map_congr_left fun reward hreward => hkept.date reward (List.mem_of_mem_filter hreward)
  exact hrows.trans (hfst.trans hdates)

theorem nodup_keptRewards (hkept : WellKept player date) :
    ((keptRewards ctx player).map Prod.fst).Nodup :=
  (List.filter_sublist.map Prod.fst).nodup hkept.keys

theorem standsFor_rewardThing (hkept : WellKept player date) :
    StandsFor (rewardThing date) (numberItems (rewardList ctx player)) where
  ref n hn m hm h := by
    have hdates : ((rewardRows ctx player).map fun n => date n.item.created).Nodup := by
      rw [map_date_rewardRows hkept]
      exact nodup_keptRewards hkept
    unfold rewardThing at h
    split at h
    next hpid =>
      split at h
      next hpid' =>
        exact List.inj_on_of_nodup_map hdates (mem_rewardRows_of_isTopPid hn hpid)
          (mem_rewardRows_of_isTopPid hm hpid') (Ref.reward.inj h)
      next => cases h
    next =>
      split at h
      next => cases h
      next => exact eq_of_sid hn hm (Ref.row.inj h)
  isContainer n hn := by
    unfold rewardThing
    split
    next hpid =>
      obtain ⟨rewardId, hreward, -⟩ :=
        mem_rewardList (mem_of_mem_numberBlock (mem_rewardRows_of_isTopPid hn hpid))
      exact (hkept.isContainer _ (List.mem_of_mem_filter hreward)).symm
    next => exact (standsFor_rowThing _).isContainer n hn
  created n hn h := by
    obtain ⟨m, hm, hparent⟩ := h
    have hlt := lt_sid hm
    have hpid : ¬isTopPid n.pid = true := by
      intro hpid
      have hrange := of_decide_eq_true hpid
      omega
    rw [rewardThing, if_neg hpid]
    rfl

/-- The first loop ends where the rows below the top level begin. -/
theorem rewardLoop_entries (date : Created → ℕ) {tops rest : List Numbered}
    (htops : ∀ n ∈ tops, isTopPid n.pid = true) (hrest : ∀ n ∈ rest, isTopPid n.pid = false)
    {rewardMap : List ℕ} (hnodup : (rewardMap ++ tops.map fun n => date n.item.created).Nodup) :
    rewardLoop date (entries rowThing (tops ++ rest)) rewardMap =
      (entries (rewardThing date) (tops ++ rest),
        rewardMap ++ tops.map fun n => date n.item.created) := by
  induction tops generalizing rewardMap with
  | nil =>
    have hthing : entries (rewardThing date) rest = entries rowThing rest := by
      apply List.map_congr_left
      intro n hn
      simp [rewardThing, hrest n hn]
    rw [List.nil_append, hthing, List.map_nil, List.append_nil]
    cases rest with
    | nil => rfl
    | cons n rest =>
      have hn := hrest n List.mem_cons_self
      simp [entries, rewardLoop, hn]
  | cons n tops ih =>
    have hn := htops n List.mem_cons_self
    have hnew : date n.item.created ∉ rewardMap := by
      intro hmem
      exact (List.nodup_append.mp hnodup).2.2 _ hmem _ List.mem_cons_self rfl
    have happend : rewardMap ++ (n :: tops).map (fun n => date n.item.created) =
        (rewardMap ++ [date n.item.created]) ++ tops.map fun n => date n.item.created := by
      simp
    have hloop := ih (fun m hm => htops m (List.mem_cons_of_mem _ hm)) (happend ▸ hnodup)
    rw [happend]
    simp only [entries, List.cons_append, List.map_cons, rewardLoop, hn, if_true, rowThing,
      rewardThing] at hloop ⊢
    rw [if_neg hnew, hloop]

variable (hkept : WellKept player date) (hcount : (keptRewards ctx player).length ≤ 99)

/-- The rows below the top level. -/
abbrev insideRows (ctx : SaveContext) (player : Player) : List Numbered :=
  numberQueue (100 + (rewardList ctx player).length)
    (blockContainers 100 ((rewardList ctx player).map Prod.snd))

theorem numberItems_rewardList (ctx : SaveContext) (player : Player) :
    numberItems (rewardList ctx player) = rewardRows ctx player ++ insideRows ctx player := rfl

theorem isTopPid_of_mem_insideRows (h : n ∈ insideRows ctx player) : isTopPid n.pid = false := by
  have hlt := lt_pid_of_mem_numberQueue h
  exact decide_eq_false (by omega)

include hkept hcount

theorem rewardLoop_eq :
    rewardLoop date (entries rowThing (numberItems (rewardList ctx player))) [] =
      (entries (rewardThing date) (numberItems (rewardList ctx player)),
        (keptRewards ctx player).map Prod.fst) := by
  have hnodup : ((rewardRows ctx player).map fun n => date n.item.created).Nodup := by
    rw [map_date_rewardRows hkept]
    exact nodup_keptRewards hkept
  rw [numberItems_rewardList, rewardLoop_entries date
    (fun n hn => isTopPid_of_mem_rewardRows hcount hn)
    (fun n hn => isTopPid_of_mem_insideRows hn) hnodup, map_date_rewardRows hkept]
  rfl

theorem loadRewards_eq :
    loadRewards date (entries rowThing (numberItems (rewardList ctx player))) =
      (entries (rewardThing date) (insideRows ctx player)).reverse.foldl
        (fun s e => insertItem (entries (rewardThing date) (numberItems (rewardList ctx player)))
          isTopPid (fun _ _ rewardMap => rewardMap) s e.2)
        { top := (keptRewards ctx player).map Prod.fst } := by
  have hinside : ∀ e ∈ (entries (rewardThing date) (insideRows ctx player)).reverse,
      (!isTopPid e.2.pid) = true := by
    intro e he
    obtain ⟨n, hn, rfl⟩ := List.mem_map.mp (List.mem_reverse.mp he)
    simp [isTopPid_of_mem_insideRows hn]
  have htop : (entries (rewardThing date) (rewardRows ctx player)).reverse.takeWhile
      (fun e => !isTopPid e.2.pid) = [] := by
    cases hrows : (entries (rewardThing date) (rewardRows ctx player)).reverse with
    | nil => rfl
    | cons e rest =>
      have he : e ∈ (entries (rewardThing date) (rewardRows ctx player)).reverse := by
        rw [hrows]
        exact List.mem_cons_self
      obtain ⟨n, hn, rfl⟩ := List.mem_map.mp (List.mem_reverse.mp he)
      simp [isTopPid_of_mem_rewardRows hcount hn]
  have hwhile : (entries (rewardThing date) (numberItems (rewardList ctx player))).reverse.takeWhile
      (fun e => !isTopPid e.2.pid) =
        (entries (rewardThing date) (insideRows ctx player)).reverse := by
    rw [numberItems_rewardList, entries, List.map_append, List.reverse_append]
    exact (List.takeWhile_append_of_pos hinside).trans
      ((congrArg _ htop).trans (List.append_nil _))
  unfold loadRewards
  rw [rewardLoop_eq hkept hcount]
  dsimp only
  rw [hwhile]

theorem top_loadRewards :
    (loadRewards date (entries rowThing (numberItems (rewardList ctx player)))).top =
      (keptRewards ctx player).map Prod.fst := by
  rw [loadRewards_eq hkept hcount, top_foldl, List.filter_reverse]
  have hnone : (entries (rewardThing date) (insideRows ctx player)).filter
      (fun e => isTopPid e.2.pid) = [] := by
    rw [List.filter_eq_nil_iff]
    intro e he
    obtain ⟨n, hn, rfl⟩ := List.mem_map.mp he
    simp [isTopPid_of_mem_insideRows hn]
  rw [hnone]
  rfl

omit hkept in
/-- No reward is put into an item. -/
theorem bucket_insideRows (itemMap : ItemMap) (ref : Ref) :
    Buckets.bucket (parentRef itemMap isTopPid) ref
        (entries (rewardThing date) (numberItems (rewardList ctx player))) =
      Buckets.bucket (parentRef itemMap isTopPid) ref
        (entries (rewardThing date) (insideRows ctx player)) := by
  have htop : Buckets.bucket (parentRef itemMap isTopPid) ref
      (entries (rewardThing date) (rewardRows ctx player)) = [] := by
    apply Buckets.bucket_eq_nil
    intro e he hparent
    obtain ⟨n, hn, rfl⟩ := List.mem_map.mp he
    rw [parentRef, if_pos (isTopPid_of_mem_rewardRows hcount hn)] at hparent
    cases hparent
  have hsplit : entries (rewardThing date) (numberItems (rewardList ctx player)) =
      entries (rewardThing date) (rewardRows ctx player) ++
        entries (rewardThing date) (insideRows ctx player) := List.map_append ..
  rw [hsplit, Buckets.bucket_append, htop, List.nil_append]

theorem itemlist_loadRewards (ref : Ref) :
    (loadRewards date (entries rowThing (numberItems (rewardList ctx player)))).itemlist ref =
      (Buckets.bucket
        (parentRef (entries (rewardThing date) (numberItems (rewardList ctx player))) isTopPid) ref
        (entries (rewardThing date) (numberItems (rewardList ctx player)))).map
          fun e => e.2.item := by
  rw [loadRewards_eq hkept hcount, itemlist_foldl_reverse, bucket_insideRows hcount]

theorem filled_loadRewards :
    Filled (rewardThing date) (rewardList ctx player)
      (loadRewards date (entries rowThing (numberItems (rewardList ctx player)))).itemlist := by
  intro m hm
  rw [itemlist_loadRewards hkept hcount]
  exact bucket_entries (standsFor_rewardThing hkept) isTopPid_le hm

/-- Every reward holds what it held. -/
theorem represents_reward {reward : ℕ × Item} (hreward : reward ∈ keptRewards ctx player) :
    RepresentsAll
      (loadRewards date (entries rowThing (numberItems (rewardList ctx player)))).itemlist
      ((loadRewards date (entries rowThing (numberItems (rewardList ctx player)))).itemlist
        (.reward reward.1)) reward.2.itemList := by
  have hmem : reward.1 ∈ (rewardRows ctx player).map fun n => date n.item.created := by
    rw [map_date_rewardRows hkept]
    exact List.mem_map_of_mem hreward
  obtain ⟨n, hn, hdate⟩ := List.mem_map.mp hmem
  obtain ⟨rewardId, hitem, -⟩ := mem_rewardList (mem_of_mem_numberBlock hn)
  have hid : rewardId = reward.1 :=
    (hkept.date _ (List.mem_of_mem_filter hitem)).symm.trans hdate
  have heq : (rewardId, n.item) = reward :=
    List.inj_on_of_nodup_map (nodup_keptRewards hkept) hitem hreward hid
  have href : (rewardThing date n).ref = .reward reward.1 := by
    rw [rewardThing, if_pos (isTopPid_of_mem_rewardRows hcount hn), hdate]
    rfl
  have hall := representsAll_itemList (standsFor_rewardThing hkept)
    (fun e he => isTopPid_le _ (isTopPid_of_mem_rewardList hcount he))
    (filled_loadRewards hkept hcount) (List.mem_append_left _ hn)
    (hkept.isContainer _ (List.mem_of_mem_filter hitem))
  have hsame : n.item = reward.2 := congrArg Prod.snd heq
  rwa [href, hsame] at hall

theorem placedOnce_rewards :
    PlacedOnce (entries (rewardThing date) (numberItems (rewardList ctx player)))
      (loadRewards date (entries rowThing (numberItems (rewardList ctx player)))).itemlist
      (((loadRewards date (entries rowThing (numberItems (rewardList ctx player)))).top).map
        newReward) := by
  apply placedOnce (standsFor_rewardThing hkept) isTopPid_le
    fun e he => isTopPid_of_mem_rewardList hcount he
  · exact itemlist_loadRewards hkept hcount
  have hfilter : (numberItems (rewardList ctx player)).filter (fun n => isTopPid n.pid) =
      rewardRows ctx player := by
    have htop : (rewardRows ctx player).filter (fun n => isTopPid n.pid) = rewardRows ctx player :=
      List.filter_eq_self.mpr fun n hn => isTopPid_of_mem_rewardRows hcount hn
    have hinside : (insideRows ctx player).filter (fun n => isTopPid n.pid) = [] := by
      rw [List.filter_eq_nil_iff]
      intro n hn
      simp [isTopPid_of_mem_insideRows hn]
    rw [numberItems_rewardList, List.filter_append, htop, hinside, List.append_nil]
  have hthings : (rewardRows ctx player).map (rewardThing date) =
      ((rewardRows ctx player).map fun n => date n.item.created).map newReward := by
    rw [List.map_map]
    apply List.map_congr_left
    intro n hn
    exact if_pos (isTopPid_of_mem_rewardRows hcount hn)
  rw [top_loadRewards hkept hcount, hfilter, hthings, map_date_rewardRows hkept]

end Rewards

/-! ## The inbox -/

section Inbox

variable {create : ℕ → ℕ → Text → Option Created} {player : Player}

theorem inboxList_eq (player : Player) : inboxList player = Buckets.spread [(0, player.inbox)] := by
  simp [inboxList, Buckets.spread]

theorem isTopPid_of_mem_inboxList {item : ℤ × Item} (h : item ∈ inboxList player) :
    isTopPid item.1 = true := by
  obtain ⟨x, -, rfl⟩ := List.mem_map.mp h
  rfl

/-- A result that is not cut off. -/
theorem loadItems_inboxResult
    (hcreate : ∀ item, Holds ((inboxList player).map Prod.snd) item → CreatedBack create item)
    (hlimit : (savedRows (inboxList player)).length ≤ 5000) :
    loadItems create (inboxResult (savedRows (inboxList player))) [] =
      entries rowThing (numberItems (inboxList player)) := by
  have hlength : (orderedBySid (savedRows (inboxList player))).length ≤ 5000 := by
    rwa [orderedBySid, List.length_insertionSort]
  rw [inboxResult, List.take_of_length_le hlength]
  exact loadItems_savedRows hcreate

theorem filter_inboxRows (player : Player) :
    (numberItems (inboxList player)).filter (fun n => isTopPid n.pid) =
      rowsIn 0 (numberItems (inboxList player)) := by
  apply List.filter_congr
  intro n hn
  rw [Bool.eq_iff_iff, decide_eq_true_iff]
  constructor
  · intro hpid
    rcases exists_container hn with hblock | ⟨m, hm, -, hparent⟩
    · obtain ⟨x, -, hx⟩ := List.mem_map.mp (mem_of_mem_numberBlock hblock)
      exact congrArg some (congrArg Prod.fst hx).symm
    · have hle := isTopPid_le n.pid hpid
      have hlt := lt_sid hm
      omega
  · intro hpid
    rw [Option.some.inj hpid]
    rfl

theorem top_loadInbox (player : Player) :
    (loadInbox (entries rowThing (numberItems (inboxList player)))).top =
      (rowsIn 0 (numberItems (inboxList player))).map rowThing := by
  have hfilter : (entries rowThing (numberItems (inboxList player))).filter
      (fun e => isTopPid e.2.pid) =
        entries rowThing (rowsIn 0 (numberItems (inboxList player))) := by
    rw [entries, List.filter_map, ← filter_inboxRows]
    rfl
  rw [loadInbox, rebuild_top, hfilter, List.foldl_reverse]
  induction rowsIn 0 (numberItems (inboxList player)) with
  | nil => rfl
  | cons n rows ih => exact congrArg (rowThing n :: ·) ih

theorem represents_inbox (player : Player) :
    RepresentsAll (loadInbox (entries rowThing (numberItems (inboxList player)))).itemlist
      (loadInbox (entries rowThing (numberItems (inboxList player)))).top player.inbox := by
  have htop : ∀ item ∈ inboxList player, isTopPid item.1 = true :=
    fun item h => isTopPid_of_mem_inboxList h
  have hall := representsAll_rowsIn isTopPid_le htop (fun _ item inbox => item :: inbox) [] 0
  have hrows : (rowsIn 0 (numberItems (inboxList player))).map Numbered.item = player.inbox := by
    have hkeys : ([((0 : ℤ), player.inbox)].map Prod.fst).Nodup := List.nodup_singleton 0
    have hzero : (0 : ℤ) ≤ 100 := by decide
    rw [inboxList_eq]
    exact map_item_rowsIn_spread hkeys List.mem_cons_self hzero
  rw [hrows, ← top_loadInbox] at hall
  exact hall

theorem placedOnce_inbox (player : Player) :
    PlacedOnce (entries rowThing (numberItems (inboxList player)))
      (loadInbox (entries rowThing (numberItems (inboxList player)))).itemlist
      (loadInbox (entries rowThing (numberItems (inboxList player)))).top := by
  apply placedOnce (standsFor_rowThing _) isTopPid_le fun item h => isTopPid_of_mem_inboxList h
  · exact rebuild_itemlist _ _ _ _
  rw [filter_inboxRows, top_loadInbox]

end Inbox

/-! ## Both -/

/-- The rewards that are stored and the inbox that are loaded after a save, with fewer than
100 stored rewards and no more rows of the inbox than the query returns. -/
theorem rewards_and_inbox_come_back {create : ℕ → ℕ → Text → Option Created}
    {date : Created → ℕ} {ctx : SaveContext} {player : Player}
    (hrewards : ∀ item, Holds ((rewardList ctx player).map Prod.snd) item →
      CreatedBack create item)
    (hinbox : ∀ item, Holds ((inboxList player).map Prod.snd) item → CreatedBack create item)
    (hkept : WellKept player date) (hcount : (keptRewards ctx player).length < 100)
    (hlimit : (savedRows (inboxList player)).length ≤ 5000) :
    let rewardItems := loadedMap create (rewardList ctx player)
    let rewards := loadRewards date rewardItems
    let inboxMap := loadItems create (inboxResult (savedRows (inboxList player))) []
    let inbox := loadInbox inboxMap
    rewards.top = (keptRewards ctx player).map Prod.fst ∧
      (∀ reward ∈ keptRewards ctx player, RepresentsAll rewards.itemlist
        (rewards.itemlist (.reward reward.1)) reward.2.itemList) ∧
      PlacedOnce (rewardLoop date rewardItems []).1 rewards.itemlist
        (rewards.top.map newReward) ∧
      RepresentsAll inbox.itemlist inbox.top player.inbox ∧
      PlacedOnce inboxMap inbox.itemlist inbox.top := by
  intro rewardItems rewards inboxMap inbox
  have hcount : (keptRewards ctx player).length ≤ 99 := Nat.le_of_lt_succ hcount
  have hrewardItems : rewardItems = entries rowThing (numberItems (rewardList ctx player)) :=
    loadItems_savedRows hrewards
  have hinboxMap : inboxMap = entries rowThing (numberItems (inboxList player)) :=
    loadItems_inboxResult hinbox hlimit
  simp only [rewards, inbox, hrewardItems, hinboxMap, rewardLoop_eq hkept hcount]
  exact ⟨top_loadRewards hkept hcount, fun reward hreward => represents_reward hkept hcount hreward,
    placedOnce_rewards hkept hcount, represents_inbox player, placedOnce_inbox player⟩


/-- A reward with a bag in it and an inbox with a parcel. -/
theorem bag_and_parcel_come_back :
    let create : ℕ → ℕ → Text → Option Created := fun id subType attributes =>
      some ⟨id, subType, attributes, decide (id = 21518 ∨ id = 1987 ∨ id = 2595)⟩
    let date : Created → ℕ := fun created => Bytes.ofBytes (created.attributes.drop 1)
    let coins : Item := .mk 2148 50 [] false []
    let reward : Item := .mk 21518 1 [18, 7, 0, 0, 0] true [coins, .mk 1987 1 [] true [coins]]
    let parcel : Item := .mk 2595 1 [] true [coins]
    let ctx : SaveContext := ⟨10, false, 1048576, id⟩
    let player : Player :=
      { groupId := 1, vocationId := 1, townId := 1, isOffline := false
        rewardMap := [(7, reward)], inbox := [coins, parcel] }
    let rewards := loadRewards date (loadedMap create (rewardList ctx player))
    let inbox := loadInbox (loadItems create (inboxResult (savedRows (inboxList player))) [])
    RepresentsAll rewards.itemlist (rewards.itemlist (.reward 7)) reward.itemList ∧
      RepresentsAll inbox.itemlist inbox.top [coins, parcel] := by
  intro create date coins reward parcel ctx player rewards inbox
  have hcoins : CreatedBack create coins := rfl
  have hrewards : ∀ item, Holds ((rewardList ctx player).map Prod.snd) item →
      CreatedBack create item := by
    have hlist : (rewardList ctx player).map Prod.snd = [reward] := rfl
    intro item hitem
    simp only [hlist, holds_cons, holds_nil, reward, coins, Item.isContainer, Item.itemList,
      true_and, Bool.false_eq_true, false_and, false_or, or_false] at hitem
    rcases hitem with rfl | rfl | rfl | rfl <;> rfl
  have hinbox : ∀ item, Holds ((inboxList player).map Prod.snd) item →
      CreatedBack create item := by
    have hlist : (inboxList player).map Prod.snd = [coins, parcel] := rfl
    intro item hitem
    simp only [hlist, holds_cons, holds_nil, parcel, coins, Item.isContainer, Item.itemList,
      true_and, Bool.false_eq_true, false_and, false_or, or_false] at hitem
    rcases hitem with rfl | rfl | rfl <;> rfl
  have hkept : WellKept player date := by
    constructor <;> decide
  have hcount : (keptRewards ctx player).length < 100 := by decide
  have hrows : (savedRows (inboxList player)).length = 3 := by
    simp [savedRows, inboxList, player, numberItems, numberBlock, numberQueue, blockContainers,
      parcel, coins, Item.isContainer, Item.itemList]
  have hmem : (7, reward) ∈ keptRewards ctx player := by
    have hlist : keptRewards ctx player = [(7, reward)] := rfl
    rw [hlist]
    exact List.mem_cons_self
  obtain ⟨-, hall, -, hitems, -⟩ :=
    rewards_and_inbox_come_back hrewards hinbox hkept hcount (by omega)
  have hreward := hall (7, reward) hmem
  constructor
  · exact hreward
  · exact hitems

/-- A reward that is older than seven days is not stored. -/
theorem old_reward_is_lost :
    let create : ℕ → ℕ → Text → Option Created := fun id subType attributes =>
      some ⟨id, subType, attributes, decide (id = 21518)⟩
    let date : Created → ℕ := fun created => Bytes.ofBytes (created.attributes.drop 1)
    let coins : Item := .mk 2148 50 [] false []
    let reward : Item := .mk 21518 1 [18, 7, 0, 0, 0] true [coins]
    let ctx : SaveContext := ⟨604808, false, 1048576, id⟩
    let player : Player :=
      { groupId := 1, vocationId := 1, townId := 1, isOffline := false
        rewardMap := [(7, reward)] }
    let rewards := loadRewards date (loadedMap create (rewardList ctx player))
    rewards.top = [] ∧ rewards.itemlist (.reward 7) = [] := by
  intro create date coins reward ctx player rewards
  have hsaved : loadedMap create (rewardList ctx player) = [] := by
    have hlist : rewardList ctx player = [] := rfl
    simp [hlist, loadedMap, savedRows, numberItems, numberBlock, numberQueue, blockContainers,
      orderedBySid, loadItems]
  simp only [rewards, hsaved]
  exact ⟨rfl, rfl⟩

end TibiaServer.IOLoginData
