import TibiaServer.Database.Insert
/-!
# The rows of an item forest

`saveItems` numbers the items of a list and of the containers in it, one level
after the other, and writes one row for each.
-/

namespace TibiaServer.IOLoginData

open TibiaServer.Database

/-- `attributes` is what `serializeAttr` writes. -/
inductive Item
  | mk (id subType : ℕ) (attributes : Text) (isContainer : Bool) (itemList : List Item)

namespace Item

def id : Item → ℕ
  | mk id _ _ _ _ => id

def subType : Item → ℕ
  | mk _ subType _ _ _ => subType

def attributes : Item → Text
  | mk _ _ attributes _ _ => attributes

def isContainer : Item → Bool
  | mk _ _ _ isContainer _ => isContainer

def itemList : Item → List Item
  | mk _ _ _ _ itemList => itemList

end Item

mutual

/-- The number of items in a tree. -/
def Item.treeSize : Item → ℕ
  | .mk _ _ _ _ itemList => 1 + forestSize itemList

def forestSize : List Item → ℕ
  | [] => 0
  | item :: items => item.treeSize + forestSize items

end

/-- Write the fields of a row with commas between them. -/
def commaSeparated (fields : List Text) : Text := (fields.intersperse (text ",")).flatten

def decimal (n : ℤ) : Text := text (toString n)

/-- `escape` is `mysql_real_escape_string`. -/
def escapeBlob (escape : Text → Text) (s : Text) : Text :=
  text "'" ++ (if s.length ≠ 0 then escape s else []) ++ text "'"

section

variable (escape : Text → Text) (guid : ℕ)

def itemRow (pid : ℤ) (runningId : ℕ) (item : Item) : Text :=
  commaSeparated [decimal guid, decimal pid, decimal runningId, decimal item.id,
    decimal item.subType, escapeBlob escape item.attributes]

/-- The rows of one list of items, each with the id of what it lies in. -/
def blockRows (runningId : ℕ) : List (ℤ × Item) → List Text
  | [] => []
  | (pid, item) :: items =>
    itemRow escape guid pid (runningId + 1) item :: blockRows (runningId + 1) items

/-- The containers of one list of items, each with its own id. -/
def blockContainers (runningId : ℕ) : List Item → List (List Item × ℕ)
  | [] => []
  | item :: items =>
    (if item.isContainer then [(item.itemList, runningId + 1)] else []) ++
      blockContainers (runningId + 1) items

/-- What the queue of `saveItems` still has to write. -/
def queueSize (queue : List (List Item × ℕ)) : ℕ :=
  (queue.map fun block => 1 + forestSize block.1).sum

theorem queueSize_append (xs ys : List (List Item × ℕ)) :
    queueSize (xs ++ ys) = queueSize xs + queueSize ys := by
  simp [queueSize]

theorem queueSize_blockContainers (items : List Item) :
    ∀ runningId, queueSize (blockContainers runningId items) ≤ forestSize items := by
  induction items with
  | nil => exact fun _ => Nat.le_refl 0
  | cons item items ih =>
    intro runningId
    have hrest := ih (runningId + 1)
    have hitem : item.treeSize = 1 + forestSize item.itemList := by
      cases item
      rfl
    rw [blockContainers, queueSize_append, forestSize, hitem]
    split
    · have hone : queueSize [(item.itemList, runningId + 1)] = 1 + forestSize item.itemList := by
        simp [queueSize]
      omega
    · have hzero : queueSize [] = 0 := rfl
      omega

/-- The loop over the queue of containers. -/
def queueRows (runningId : ℕ) : List (List Item × ℕ) → List Text
  | [] => []
  | (items, parentId) :: queue =>
    blockRows escape guid runningId (items.map fun item => ((parentId : ℤ), item)) ++
      queueRows (runningId + items.length) (queue ++ blockContainers runningId items)
  termination_by queue => queueSize queue
  decreasing_by
    have hblock := queueSize_blockContainers items runningId
    have hcons : queueSize ((items, parentId) :: queue) =
        1 + forestSize items + queueSize queue := by
      simp [queueSize]
    rw [queueSize_append, hcons]
    omega

/-- The rows that `saveItems` adds, in order. -/
def saveItemsRows (itemList : List (ℤ × Item)) : List Text :=
  blockRows escape guid 100 itemList ++
    queueRows escape guid (100 + itemList.length)
      (blockContainers 100 (itemList.map Prod.snd))

end

end TibiaServer.IOLoginData
