import TibiaServer.IOLoginData.SaveItems
import TibiaServer.Library.Buckets
/-!
# The numbers of an item forest

The rows of `saveItems` before they are written as texts: each item with the id of what
it lies in and its own id.  The ids count up without a gap, the rows with the id of a
container are the items in it in order (`items_inside`), and every row below the top
level has the id of a container for its parent (`exists_container`).
-/

namespace TibiaServer.IOLoginData

open TibiaServer.Database TibiaServer.Library

structure Numbered where
  pid : ℤ
  sid : ℕ
  item : Item

/-- The columns of a row besides the id of the player. -/
structure ItemRow where
  pid : ℤ
  sid : ℕ
  itemtype : ℕ
  count : ℕ
  attributes : Text

def Numbered.row (n : Numbered) : ItemRow where
  pid := n.pid
  sid := n.sid
  itemtype := n.item.id
  count := n.item.subType
  attributes := n.item.attributes

/-- The text with which a row is inserted. -/
def ItemRow.values (escape : Text → Text) (guid : ℕ) (row : ItemRow) : Text :=
  commaSeparated [decimal guid, decimal row.pid, decimal row.sid, decimal row.itemtype,
    decimal row.count, escapeBlob escape row.attributes]

def numberBlock (runningId : ℕ) : List (ℤ × Item) → List Numbered
  | [] => []
  | (pid, item) :: items => ⟨pid, runningId + 1, item⟩ :: numberBlock (runningId + 1) items

/-- The loop over the queue of containers. -/
def numberQueue (runningId : ℕ) : List (List Item × ℕ) → List Numbered
  | [] => []
  | (items, parentId) :: queue =>
    numberBlock runningId (items.map fun item => ((parentId : ℤ), item)) ++
      numberQueue (runningId + items.length) (queue ++ blockContainers runningId items)
  termination_by queue => queueSize queue
  decreasing_by
    have hblock := queueSize_blockContainers items runningId
    have hcons : queueSize ((items, parentId) :: queue) =
        1 + forestSize items + queueSize queue := by
      simp [queueSize]
    rw [queueSize_append, hcons]
    omega

/-- The rows that `saveItems` adds, in order. -/
def numberItems (itemList : List (ℤ × Item)) : List Numbered :=
  numberBlock 100 itemList ++
    numberQueue (100 + itemList.length) (blockContainers 100 (itemList.map Prod.snd))

def savedRows (itemList : List (ℤ × Item)) : List ItemRow :=
  (numberItems itemList).map Numbered.row

/-! ## The texts -/

/-! ## One list of items -/

section Block

variable {runningId : ℕ} {items : List (ℤ × Item)} {n : Numbered}

theorem length_numberBlock (runningId : ℕ) (items : List (ℤ × Item)) :
    (numberBlock runningId items).length = items.length := by
  induction items generalizing runningId with
  | nil => rfl
  | cons item items ih => rw [numberBlock, List.length_cons, List.length_cons, ih]

theorem sids_numberBlock (runningId : ℕ) (items : List (ℤ × Item)) :
    (numberBlock runningId items).map Numbered.sid =
      List.range' (runningId + 1) items.length := by
  induction items generalizing runningId with
  | nil => rfl
  | cons item items ih =>
    rw [numberBlock, List.map_cons, ih, List.length_cons, List.range'_succ]

theorem map_numberBlock (runningId : ℕ) (items : List (ℤ × Item)) :
    (numberBlock runningId items).map (fun n => (n.pid, n.item)) = items := by
  induction items generalizing runningId with
  | nil => rfl
  | cons item items ih => rw [numberBlock, List.map_cons, ih]

theorem mem_of_mem_numberBlock (h : n ∈ numberBlock runningId items) :
    (n.pid, n.item) ∈ items := by
  have hmem := List.mem_map_of_mem (f := fun n : Numbered => (n.pid, n.item)) h
  rwa [map_numberBlock] at hmem

theorem sid_of_mem_numberBlock (h : n ∈ numberBlock runningId items) :
    runningId < n.sid ∧ n.sid ≤ runningId + items.length := by
  have hmem := List.mem_map_of_mem (f := Numbered.sid) h
  rw [sids_numberBlock, List.mem_range'_1] at hmem
  omega

/-- The containers of a list wait in the queue under their own ids. -/
theorem blockContainers_eq (runningId : ℕ) (items : List (ℤ × Item)) :
    blockContainers runningId (items.map Prod.snd) =
      ((numberBlock runningId items).filter fun n => n.item.isContainer).map fun n =>
        (n.item.itemList, n.sid) := by
  induction items generalizing runningId with
  | nil => rfl
  | cons item items ih =>
    rw [List.map_cons, blockContainers, numberBlock, ih, List.filter_cons]
    cases item.2.isContainer <;> rfl

end Block

/-! ## The queue -/

/-- The containers in the queue have different ids, all of them given before. -/
structure Numbering (runningId : ℕ) (queue : List (List Item × ℕ)) : Prop where
  nodup : (queue.map Prod.snd).Nodup
  le : ∀ block ∈ queue, block.2 ≤ runningId

/-- The rows with the parent, in order. -/
def rowsIn (pid : ℤ) (rows : List Numbered) : List Numbered :=
  Buckets.bucket (fun n => some n.pid) pid rows

theorem rowsIn_append (pid : ℤ) (rows rows' : List Numbered) :
    rowsIn pid (rows ++ rows') = rowsIn pid rows ++ rowsIn pid rows' :=
  Buckets.bucket_append rows rows'

theorem rowsIn_eq_nil {pid : ℤ} {rows : List Numbered} (h : ∀ n ∈ rows, n.pid ≠ pid) :
    rowsIn pid rows = [] :=
  Buckets.bucket_eq_nil fun n hn hpid => h n hn (Option.some.inj hpid)

/-- The items of a list and all that lies in them. -/
inductive Holds : List Item → Item → Prop
  | here {items : List Item} {item : Item} (h : item ∈ items) : Holds items item
  | inside {items : List Item} {container item : Item} (h : container ∈ items)
      (hcontainer : container.isContainer = true) (hinside : Holds container.itemList item) :
      Holds items item

@[simp] theorem holds_nil (item : Item) : ¬Holds [] item := by
  rintro (h | ⟨h, -, -⟩)
  · cases h
  · cases h

@[simp] theorem holds_cons {x item : Item} {items : List Item} :
    Holds (x :: items) item ↔
      item = x ∨ x.isContainer = true ∧ Holds x.itemList item ∨ Holds items item := by
  constructor
  · rintro (h | ⟨h, hcontainer, hinside⟩)
    · rcases List.mem_cons.mp h with rfl | h
      · exact .inl rfl
      · exact .inr (.inr (.here h))
    · rcases List.mem_cons.mp h with rfl | h
      · exact .inr (.inl ⟨hcontainer, hinside⟩)
      · exact .inr (.inr (.inside h hcontainer hinside))
  · rintro (rfl | ⟨hcontainer, hinside⟩ | h | ⟨h, hcontainer, hinside⟩)
    · exact .here List.mem_cons_self
    · exact .inside List.mem_cons_self hcontainer hinside
    · exact .here (List.mem_cons_of_mem _ h)
    · exact .inside (List.mem_cons_of_mem _ h) hcontainer hinside

/-- The rows of one container. -/
abbrev inContainer (runningId parentId : ℕ) (items : List Item) : List Numbered :=
  numberBlock runningId (items.map fun item => ((parentId : ℤ), item))

section Queue

variable {runningId parentId : ℕ} {items : List Item} {queue : List (List Item × ℕ)}
  {n : Numbered}

theorem pid_of_mem_inContainer (h : n ∈ inContainer runningId parentId items) :
    n.pid = parentId := by
  obtain ⟨item, -, hpair⟩ := List.mem_map.mp (mem_of_mem_numberBlock h)
  exact (congrArg Prod.fst hpair).symm

theorem mem_of_mem_inContainer (h : n ∈ inContainer runningId parentId items) :
    n.item ∈ items := by
  obtain ⟨item, hitem, hpair⟩ := List.mem_map.mp (mem_of_mem_numberBlock h)
  have heq : item = n.item := congrArg Prod.snd hpair
  exact heq ▸ hitem

theorem map_item_inContainer (runningId parentId : ℕ) (items : List Item) :
    (inContainer runningId parentId items).map Numbered.item = items := by
  have hmap := congrArg (List.map Prod.snd)
    (map_numberBlock runningId (items.map fun item => ((parentId : ℤ), item)))
  simpa [Function.comp_def] using hmap

theorem blockContainers_inContainer (runningId parentId : ℕ) (items : List Item) :
    blockContainers runningId items =
      ((inContainer runningId parentId items).filter fun n => n.item.isContainer).map fun n =>
        (n.item.itemList, n.sid) := by
  have hitems : items = (items.map fun item => ((parentId : ℤ), item)).map Prod.snd := by
    simp [Function.comp_def]
  conv_lhs => rw [hitems]
  exact blockContainers_eq runningId _

theorem mem_blockContainers (parentId : ℕ) {block : List Item × ℕ} :
    block ∈ blockContainers runningId items ↔
      ∃ n ∈ inContainer runningId parentId items, n.item.isContainer = true ∧
        (n.item.itemList, n.sid) = block := by
  rw [blockContainers_inContainer runningId parentId]
  simp [and_assoc]

theorem sid_of_mem_inContainer (h : n ∈ inContainer runningId parentId items) :
    runningId < n.sid ∧ n.sid ≤ runningId + items.length := by
  have hsid := sid_of_mem_numberBlock h
  rwa [List.length_map] at hsid

theorem Numbering.next (h : Numbering runningId ((items, parentId) :: queue)) :
    Numbering (runningId + items.length) (queue ++ blockContainers runningId items) := by
  have hids : ((blockContainers runningId items).map Prod.snd).Sublist
      (List.range' (runningId + 1) items.length) := by
    have hsids := sids_numberBlock runningId (items.map fun item => ((parentId : ℤ), item))
    rw [List.length_map] at hsids
    rw [blockContainers_inContainer runningId parentId, List.map_map, ← hsids]
    exact List.filter_sublist.map Numbered.sid
  constructor
  · rw [List.map_append, List.nodup_append]
    refine ⟨(List.nodup_cons.mp h.nodup).2, hids.nodup (List.nodup_range' ..), ?_⟩
    intro s hs s' hs' heq
    obtain ⟨block, hblock, rfl⟩ := List.mem_map.mp hs
    have hold := h.le block (List.mem_cons_of_mem _ hblock)
    have hnew := List.mem_range'_1.mp (hids.subset hs')
    omega
  · intro block hblock
    rcases List.mem_append.mp hblock with hblock | hblock
    · have hold := h.le block (List.mem_cons_of_mem _ hblock)
      omega
    · have hnew := List.mem_range'_1.mp (hids.subset (List.mem_map_of_mem hblock))
      omega

theorem sids_numberQueue (runningId : ℕ) (queue : List (List Item × ℕ)) :
    (numberQueue runningId queue).map Numbered.sid =
      List.range' (runningId + 1) (numberQueue runningId queue).length := by
  induction runningId, queue using numberQueue.induct with
  | case1 runningId => simp [numberQueue]
  | case2 runningId items parentId queue ih =>
    rw [numberQueue, List.map_append, ih, sids_numberBlock, List.length_append,
      length_numberBlock, List.length_map, Nat.add_right_comm runningId items.length 1,
      List.range'_append_1]

theorem lt_sid_of_mem_numberQueue (h : n ∈ numberQueue runningId queue) : runningId < n.sid := by
  have hmem := List.mem_map_of_mem (f := Numbered.sid) h
  rw [sids_numberQueue, List.mem_range'_1] at hmem
  omega

/-- The parent of a row waits in the queue or is a container with a row of its own. -/
theorem exists_parent_numberQueue (h : n ∈ numberQueue runningId queue) :
    (∃ block ∈ queue, n.pid = block.2) ∨
      ∃ m ∈ numberQueue runningId queue, m.item.isContainer = true ∧ n.pid = m.sid := by
  induction runningId, queue using numberQueue.induct with
  | case1 runningId => simp [numberQueue] at h
  | case2 runningId items parentId queue ih =>
    rw [numberQueue, List.mem_append] at h
    rcases h with h | h
    · exact .inl ⟨(items, parentId), List.mem_cons_self, pid_of_mem_inContainer h⟩
    rw [numberQueue]
    rcases ih h with ⟨block, hblock, hpid⟩ | ⟨m, hm, hcontainer, hpid⟩
    · rcases List.mem_append.mp hblock with hblock | hblock
      · exact .inl ⟨block, List.mem_cons_of_mem _ hblock, hpid⟩
      · obtain ⟨m, hm, hcontainer, rfl⟩ := (mem_blockContainers parentId).mp hblock
        exact .inr ⟨m, List.mem_append_left _ hm, hcontainer, hpid⟩
    · exact .inr ⟨m, List.mem_append_right _ hm, hcontainer, hpid⟩

theorem holds_of_mem_numberQueue (h : n ∈ numberQueue runningId queue) :
    ∃ block ∈ queue, Holds block.1 n.item := by
  induction runningId, queue using numberQueue.induct with
  | case1 runningId => simp [numberQueue] at h
  | case2 runningId items parentId queue ih =>
    rw [numberQueue, List.mem_append] at h
    rcases h with h | h
    · exact ⟨(items, parentId), List.mem_cons_self, .here (mem_of_mem_inContainer h)⟩
    obtain ⟨block, hblock, hholds⟩ := ih h
    rcases List.mem_append.mp hblock with hblock | hblock
    · exact ⟨block, List.mem_cons_of_mem _ hblock, hholds⟩
    · obtain ⟨m, hm, hcontainer, rfl⟩ := (mem_blockContainers parentId).mp hblock
      exact ⟨(items, parentId), List.mem_cons_self,
        .inside (mem_of_mem_inContainer hm) hcontainer hholds⟩

/-- No row of the queue lies in something that has an id and waits no longer. -/
theorem rowsIn_numberQueue_eq_nil {id : ℤ} (hid : id ≤ runningId)
    (h : ∀ block ∈ queue, (block.2 : ℤ) ≠ id) : rowsIn id (numberQueue runningId queue) = [] := by
  apply rowsIn_eq_nil
  intro n hn hpid
  rcases exists_parent_numberQueue hn with ⟨block, hblock, hparent⟩ | ⟨m, hm, -, hparent⟩
  · have hne := h block hblock
    omega
  · have hlt := lt_sid_of_mem_numberQueue hm
    omega

theorem rowsIn_inContainer_self (runningId parentId : ℕ) (items : List Item) :
    rowsIn parentId (inContainer runningId parentId items) =
      inContainer runningId parentId items :=
  Buckets.bucket_eq_self fun _ hn => congrArg some (pid_of_mem_inContainer hn)

theorem rowsIn_inContainer_ne {id : ℤ} (h : id ≠ parentId) :
    rowsIn id (inContainer runningId parentId items) = [] := by
  apply rowsIn_eq_nil
  intro n hn hpid
  exact h (hpid.symm.trans (pid_of_mem_inContainer hn))

/-- A container that waits in the queue gets the rows of its items. -/
theorem items_of_queued (hnum : Numbering runningId queue) {block : List Item × ℕ}
    (h : block ∈ queue) :
    (rowsIn block.2 (numberQueue runningId queue)).map Numbered.item = block.1 := by
  induction runningId, queue using numberQueue.induct with
  | case1 runningId => cases h
  | case2 runningId items parentId queue ih =>
    rw [numberQueue, rowsIn_append, List.map_append]
    rcases List.mem_cons.mp h with rfl | hrest
    · have hlater : rowsIn parentId (numberQueue (runningId + items.length)
          (queue ++ blockContainers runningId items)) = [] := by
        have hle := hnum.le _ List.mem_cons_self
        apply rowsIn_numberQueue_eq_nil
        · exact_mod_cast Nat.le_add_right_of_le hle
        intro block hblock heq
        rcases List.mem_append.mp hblock with hblock | hblock
        · have hmem := List.mem_map_of_mem (f := Prod.snd) hblock
          rw [Int.ofNat_inj.mp heq] at hmem
          exact (List.nodup_cons.mp hnum.nodup).1 hmem
        · obtain ⟨m, hm, -, rfl⟩ := (mem_blockContainers parentId).mp hblock
          have hlt := (sid_of_mem_inContainer hm).1
          dsimp only at heq hle
          omega
      rw [rowsIn_inContainer_self, hlater, map_item_inContainer, List.map_nil, List.append_nil]
    · have hne : (block.2 : ℤ) ≠ parentId := by
        intro heq
        have hmem := List.mem_map_of_mem (f := Prod.snd) hrest
        rw [Int.ofNat_inj.mp heq] at hmem
        exact (List.nodup_cons.mp hnum.nodup).1 hmem
      rw [rowsIn_inContainer_ne hne, List.map_nil, List.nil_append]
      exact ih hnum.next (List.mem_append_left _ hrest)

/-- The rows that lie in a container of the queue's rows are its items. -/
theorem items_inside_numberQueue (hnum : Numbering runningId queue)
    (h : n ∈ numberQueue runningId queue) (hcontainer : n.item.isContainer = true) :
    (rowsIn n.sid (numberQueue runningId queue)).map Numbered.item = n.item.itemList := by
  induction runningId, queue using numberQueue.induct with
  | case1 runningId => simp [numberQueue] at h
  | case2 runningId items parentId queue ih =>
    have hlt := lt_sid_of_mem_numberQueue h
    have hparent := hnum.le _ List.mem_cons_self
    have hne : (n.sid : ℤ) ≠ parentId := by
      dsimp only at hparent
      omega
    rw [numberQueue, List.mem_append] at h
    rw [numberQueue, rowsIn_append, rowsIn_inContainer_ne hne, List.nil_append]
    rcases h with h | h
    · have hqueued : (n.item.itemList, n.sid) ∈ queue ++ blockContainers runningId items :=
        List.mem_append_right _ ((mem_blockContainers parentId).mpr ⟨n, h, hcontainer, rfl⟩)
      exact items_of_queued hnum.next hqueued
    · exact ih hnum.next h

end Queue

/-! ## All items -/

section Items

variable {itemList : List (ℤ × Item)} {n : Numbered}

/-- The queue behind the top level. -/
theorem numbering_start (itemList : List (ℤ × Item)) :
    Numbering (100 + itemList.length) (blockContainers 100 (itemList.map Prod.snd)) := by
  have hids : ((blockContainers 100 (itemList.map Prod.snd)).map Prod.snd).Sublist
      (List.range' 101 itemList.length) := by
    rw [blockContainers_eq, List.map_map, ← sids_numberBlock]
    exact List.filter_sublist.map Numbered.sid
  constructor
  · exact hids.nodup (List.nodup_range' ..)
  · intro block hblock
    have hmem := List.mem_range'_1.mp (hids.subset (List.mem_map_of_mem hblock))
    omega

/-- The ids count up from 101. -/
theorem sids_numberItems (itemList : List (ℤ × Item)) :
    (numberItems itemList).map Numbered.sid =
      List.range' 101 (numberItems itemList).length := by
  rw [numberItems, List.map_append, sids_numberBlock, sids_numberQueue, List.length_append,
    length_numberBlock, Nat.add_right_comm 100, List.range'_append_1]

theorem nodup_sids (itemList : List (ℤ × Item)) :
    ((numberItems itemList).map Numbered.sid).Nodup := by
  rw [sids_numberItems]
  exact List.nodup_range' ..

theorem lt_sid (h : n ∈ numberItems itemList) : 100 < n.sid := by
  have hmem := List.mem_map_of_mem (f := Numbered.sid) h
  rw [sids_numberItems, List.mem_range'_1] at hmem
  omega

/-- A row of the top level, or one that lies in a container with a row. -/
theorem exists_container (h : n ∈ numberItems itemList) :
    n ∈ numberBlock 100 itemList ∨
      ∃ m ∈ numberItems itemList, m.item.isContainer = true ∧ n.pid = m.sid := by
  rw [numberItems, List.mem_append] at h
  rcases h with h | h
  · exact .inl h
  right
  rcases exists_parent_numberQueue h with ⟨block, hblock, hpid⟩ | ⟨m, hm, hcontainer, hpid⟩
  · rw [blockContainers_eq, List.mem_map] at hblock
    obtain ⟨m, hm, rfl⟩ := hblock
    obtain ⟨hm, hcontainer⟩ := List.mem_filter.mp hm
    exact ⟨m, List.mem_append_left _ hm, hcontainer, hpid⟩
  · exact ⟨m, List.mem_append_right _ hm, hcontainer, hpid⟩

/-- Every row is one of the items or lies in one. -/
theorem holds_of_mem (h : n ∈ numberItems itemList) : Holds (itemList.map Prod.snd) n.item := by
  rw [numberItems, List.mem_append] at h
  rcases h with h | h
  · exact .here (List.mem_map_of_mem (f := Prod.snd) (mem_of_mem_numberBlock h))
  · obtain ⟨block, hblock, hholds⟩ := holds_of_mem_numberQueue h
    rw [blockContainers_eq, List.mem_map] at hblock
    obtain ⟨m, hm, rfl⟩ := hblock
    obtain ⟨hm, hcontainer⟩ := List.mem_filter.mp hm
    exact .inside (List.mem_map_of_mem (f := Prod.snd) (mem_of_mem_numberBlock hm)) hcontainer
      hholds

/-- The parents of the top level are no ids. -/
def TopLevel (itemList : List (ℤ × Item)) : Prop := ∀ item ∈ itemList, item.1 ≤ 100

/-- The parents of the other rows are ids. -/
theorem lt_pid_of_mem_numberQueue (h : n ∈ numberQueue (100 + itemList.length)
    (blockContainers 100 (itemList.map Prod.snd))) : 100 < n.pid := by
  rcases exists_parent_numberQueue h with ⟨block, hblock, hpid⟩ | ⟨m, hm, -, hpid⟩
  · rw [blockContainers_eq, List.mem_map] at hblock
    obtain ⟨m, hm, rfl⟩ := hblock
    have hlt := (sid_of_mem_numberBlock (List.mem_of_mem_filter hm)).1
    dsimp only at hpid
    omega
  · have hlt := lt_sid_of_mem_numberQueue hm
    omega

/-- The rows with a parent of the top level, in order. -/
theorem rowsIn_top (pid : ℤ) (hpid : pid ≤ 100) :
    rowsIn pid (numberItems itemList) = rowsIn pid (numberBlock 100 itemList) := by
  have hnil : rowsIn pid (numberQueue (100 + itemList.length)
      (blockContainers 100 (itemList.map Prod.snd))) = [] := by
    apply rowsIn_eq_nil
    intro n hn heq
    have hlt := lt_pid_of_mem_numberQueue hn
    omega
  rw [numberItems, rowsIn_append, hnil, List.append_nil]

/-- The rows that lie in a container are its items in order. -/
theorem items_inside (htop : TopLevel itemList) (h : n ∈ numberItems itemList)
    (hcontainer : n.item.isContainer = true) :
    (rowsIn n.sid (numberItems itemList)).map Numbered.item = n.item.itemList := by
  have hlt := lt_sid h
  have hblock : rowsIn n.sid (numberBlock 100 itemList) = [] := by
    apply rowsIn_eq_nil
    intro m hm heq
    have hpid := htop _ (mem_of_mem_numberBlock hm)
    dsimp only at hpid
    omega
  rw [numberItems, List.mem_append] at h
  rw [numberItems, rowsIn_append, hblock, List.nil_append]
  rcases h with h | h
  · have hqueued : (n.item.itemList, n.sid) ∈ blockContainers 100 (itemList.map Prod.snd) := by
      rw [blockContainers_eq]
      exact List.mem_map.mpr ⟨n, List.mem_filter.mpr ⟨h, hcontainer⟩, rfl⟩
    exact items_of_queued (numbering_start itemList) hqueued
  · exact items_inside_numberQueue (numbering_start itemList) h hcontainer

end Items

end TibiaServer.IOLoginData
