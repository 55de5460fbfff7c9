import TibiaServer.Cylinders.Item
import TibiaServer.Enums
import TibiaServer.IOLoginData.SavePlayer
import TibiaServer.World.AccessLists
/-!
# Mail

`Mailbox::sendItem` moves an item that is posted into the inbox of its receiver.  A receiver who
is not online is loaded, gets the item, is saved and then dropped, and what the save returns is
not looked at: the item is lost exactly when that save leaves the inbox unsaved
(`sendItem_keeps_iff`).
-/

namespace TibiaServer.Game.Mailbox

open ReturnValue
open TibiaServer.Cylinders (ItemType PlayerRef)
open TibiaServer.Database
open TibiaServer.IOLoginData
open TibiaServer.World (Line toLowerCaseString trimString)

def ITEM_LABEL : ℕ := 2599

/-! ## The receiver -/

/-- `getFirstLine` -/
def getFirstLine (str : Line) : Line := str.takeWhile (· ≠ '\n')

section Receiver

-- the text among the attributes of an item
variable (getText : Item → Line)

mutual

/-- The name that `getReceiver` writes; `none` where it returns false. -/
def getReceiver : Item → Option Line
  | .mk id subType attributes isContainer itemList =>
    if isContainer then getReceiverInside itemList
    else
      let text := getText (.mk id subType attributes isContainer itemList)
      if text = [] then none else some (trimString (getFirstLine text))

/-- The loop over the items of a container. -/
def getReceiverInside : List Item → Option Line
  | [] => none
  | containerItem :: itemList =>
    if containerItem.id = ITEM_LABEL then
      (getReceiver containerItem).or (getReceiverInside itemList)
    else getReceiverInside itemList

end

end Receiver

/-! ## The state -/

/-- An item at the mailbox or in an inbox: the one that is posted, or another. -/
inductive MailItem
  | posted
  | other (item : Item)

def MailItem.isPosted : MailItem → Bool
  | .posted => true
  | .other _ => false

/-- The data of an entry, given that of the posted item. -/
def MailItem.item (posted : Item) : MailItem → Item
  | .posted => posted
  | .other item => item

/-- `Player tmpPlayer(nullptr)` once he is loaded. -/
structure TmpPlayer where
  player : Player
  inbox : List MailItem

/-- The player as he is saved. -/
def TmpPlayer.saved (tmpPlayer : TmpPlayer) (posted : Item) : Player :=
  { tmpPlayer.player with inbox := tmpPlayer.inbox.map (MailItem.item posted) }

structure PostState where
  posted : Item
  /-- what the parent of the posted item holds -/
  mailbox : List MailItem
  /-- the inboxes of the players who are online -/
  inbox : PlayerRef → List MailItem
  tmpPlayer : Option TmpPlayer := none
  /-- what the database holds of the receiver -/
  rows : PlayerRows

/-- What `sendItem` calls.  `loadPlayerByName` is none where the load fails, and `outcomes` are
those of the queries of the save. -/
structure PostOffice where
  items : ℕ → ItemType
  getText : Item → Line
  getPlayerByName : Line → Option PlayerRef
  loadPlayerByName : Line → Option Player
  ctx : SaveContext
  outcomes : ℕ → Outcome

namespace PostOffice

variable (w : PostOffice)

/-- What `Game::internalMoveItem` answers for an inbox: `Inbox::queryAdd` with `FLAG_NOLIMIT`, and
then `queryRemove` of the parent. -/
def moveAnswer (s : PostState) : ReturnValue :=
  let it := w.items s.posted.id
  if !it.pickupable then CANNOTPICKUP
  else if !s.mailbox.any MailItem.isPosted then NOTPOSSIBLE
  else if !it.moveable then NOTMOVEABLE
  else NOERROR

/-- `Game::transformItem` between types of one kind: the item gets the new id if that is a type. -/
def transformItem (item : Item) (newId : ℕ) : Item :=
  if (w.items newId).id = 0 then item
  else .mk newId item.subType item.attributes item.isContainer item.itemList

/-- What a save leaves in the database. -/
def rowsAfterSave (player : Player) (rows : PlayerRows) : PlayerRows :=
  (savePlayer w.ctx w.outcomes player { stored := rows }).2.stored

/-- The item has gone and been stamped. -/
def stamped (s : PostState) : PostState :=
  { s with
    posted := w.transformItem s.posted (s.posted.id + 1)
    mailbox := s.mailbox.eraseP MailItem.isPosted }

/-- The item is moved into the inbox of a player who is online. -/
def moveToInbox (s : PostState) (player : PlayerRef) : PostState :=
  w.stamped { s with inbox := Function.update s.inbox player (.posted :: s.inbox player) }

/-- The item is moved into the inbox of the player who was loaded, and he is saved. -/
def moveAndSave (s : PostState) (tmpPlayer : TmpPlayer) : PostState :=
  let tmpPlayer := { tmpPlayer with inbox := .posted :: tmpPlayer.inbox }
  let s := w.stamped { s with tmpPlayer := some tmpPlayer }
  { s with rows := w.rowsAfterSave (tmpPlayer.saved s.posted) s.rows }

/-- The branch of a receiver who is online. -/
def sendOnline (s : PostState) (player : PlayerRef) : Bool × PostState :=
  if w.moveAnswer s = NOERROR then (true, w.moveToInbox s player) else (false, s)

/-- The branch of any other receiver. -/
def sendOffline (s : PostState) (receiver : Line) : Bool × PostState :=
  match w.loadPlayerByName receiver with
  | none => (false, s)
  | some player =>
    let tmpPlayer : TmpPlayer := ⟨player, player.inbox.map .other⟩
    let s := { s with tmpPlayer := some tmpPlayer }
    if w.moveAnswer s = NOERROR then (true, w.moveAndSave s tmpPlayer) else (false, s)

/-- `Mailbox::sendItem` -/
def sendItem (s : PostState) : Bool × PostState :=
  match getReceiver w.getText s.posted with
  | none => (false, s)
  | some receiver =>
    if receiver = [] then (false, s)
    else
      match w.getPlayerByName (toLowerCaseString receiver) with
      | some player => w.sendOnline s player
      | none => w.sendOffline s receiver

end PostOffice

/-! ## What becomes of the item -/

/-- An item that lies at the mailbox among others and nowhere else. -/
structure Posting where
  item : Item
  before : List Item
  after : List Item
  inbox : PlayerRef → List Item
  rows : PlayerRows

def Posting.state (p : Posting) : PostState where
  posted := p.item
  mailbox := p.before.map .other ++ .posted :: p.after.map .other
  inbox player := (p.inbox player).map .other
  rows := p.rows

/-- The rows of the inbox are stored. -/
def InboxStored (ctx : SaveContext) (player : Player) (rows : PlayerRows) : Prop :=
  rows.tables .player_inboxitems = itemsRows ctx player (inboxList player)

namespace PostOffice

variable (w : PostOffice)

def AtMailbox (s : PostState) : Prop := .posted ∈ s.mailbox

/-- The item is in the inbox of an online player, or in one that is stored. -/
def InInbox (s : PostState) : Prop :=
  (∃ player, .posted ∈ s.inbox player) ∨
    ∃ tmpPlayer, s.tmpPlayer = some tmpPlayer ∧ .posted ∈ tmpPlayer.inbox ∧
      InboxStored w.ctx (tmpPlayer.saved s.posted) s.rows

/-- The item is at the mailbox or in an inbox that survives, and not in both. -/
def Kept (s : PostState) : Prop := Xor (AtMailbox s) (w.InInbox s)

/-- The player who was loaded, with the item in his inbox. -/
def withItem (item : Item) (loaded : Player) : Player :=
  { loaded with inbox := w.transformItem item (item.id + 1) :: loaded.inbox }

/-- The player who is loaded for a receiver who is not online, and who gets the item. -/
structure DeliversTo (p : Posting) (receiver : Line) (loaded : Player) : Prop where
  parsed : getReceiver w.getText p.item = some receiver
  nonempty : receiver ≠ []
  offline : w.getPlayerByName (toLowerCaseString receiver) = none
  load : w.loadPlayerByName receiver = some loaded
  moved : w.moveAnswer p.state = NOERROR

variable {w} {p : Posting}

/-! ### The lists -/

theorem posted_notMem (l : List Item) : MailItem.posted ∉ l.map MailItem.other := by simp

theorem posted_mem_state (p : Posting) : AtMailbox p.state := by simp [AtMailbox, Posting.state]

theorem posted_notMem_eraseP (p : Posting) :
    MailItem.posted ∉ p.state.mailbox.eraseP MailItem.isPosted := by
  have hbefore : ∀ x ∈ p.before.map MailItem.other, ¬x.isPosted = true := by
    simp [MailItem.isPosted]
  have herase : p.state.mailbox.eraseP MailItem.isPosted =
      p.before.map .other ++ p.after.map .other := by
    unfold Posting.state
    simp only
    rw [List.eraseP_append_right _ hbefore, List.eraseP_cons_of_pos rfl]
  simp [herase]

theorem saved_posted (loaded : Player) (item : Item) :
    TmpPlayer.saved ⟨loaded, .posted :: loaded.inbox.map .other⟩ item =
      { loaded with inbox := item :: loaded.inbox } := by
  have hother : MailItem.item item ∘ MailItem.other = id := rfl
  simp [TmpPlayer.saved, MailItem.item, hother]

/-! ### The outcomes -/

/-- Nothing has been moved: the item is where it was. -/
theorem kept_of_unmoved {s : PostState} (hmailbox : s.mailbox = p.state.mailbox)
    (hinbox : s.inbox = p.state.inbox)
    (htmp : ∀ tmpPlayer, s.tmpPlayer = some tmpPlayer → .posted ∉ tmpPlayer.inbox) :
    w.Kept s := by
  apply Or.inl
  constructor
  · unfold AtMailbox
    rw [hmailbox]
    exact posted_mem_state p
  · rintro (⟨player, hplayer⟩ | ⟨tmpPlayer, hsome, hmem, -⟩)
    · rw [hinbox] at hplayer
      exact posted_notMem _ hplayer
    · exact htmp tmpPlayer hsome hmem

variable (w p) in
theorem kept_state : w.Kept p.state := by
  apply kept_of_unmoved (p := p) rfl rfl
  simp [Posting.state]

theorem kept_sendOnline (player : PlayerRef) : w.Kept (w.sendOnline p.state player).2 := by
  unfold sendOnline
  split_ifs
  · apply Or.inr
    constructor
    · refine Or.inl ⟨player, ?_⟩
      simp [moveToInbox, stamped]
    · exact posted_notMem_eraseP p
  · exact w.kept_state p

/-- In the inbox of a temporary player the item is kept as far as that inbox is stored. -/
theorem kept_moveAndSave_iff {s : PostState} (hposted : s.posted = p.item)
    (hmailbox : s.mailbox = p.state.mailbox) (hinbox : s.inbox = p.state.inbox)
    (loaded : Player) :
    w.Kept (w.moveAndSave s ⟨loaded, loaded.inbox.map .other⟩) ↔
      InboxStored w.ctx (w.withItem p.item loaded)
        (w.rowsAfterSave (w.withItem p.item loaded) s.rows) := by
  generalize hs' : w.moveAndSave s ⟨loaded, loaded.inbox.map .other⟩ = s'
  have hgone : ¬AtMailbox s' := by
    simp only [AtMailbox, ← hs', moveAndSave, stamped, hmailbox]
    exact posted_notMem_eraseP p
  have honline : ∀ player, MailItem.posted ∉ s'.inbox player := by
    intro player
    simp only [← hs', moveAndSave, stamped, hinbox]
    exact posted_notMem _
  have hin : w.InInbox s' ↔ InboxStored w.ctx (w.withItem p.item loaded)
      (w.rowsAfterSave (w.withItem p.item loaded) s.rows) := by
    unfold InInbox
    simp only [honline, exists_false, false_or]
    simp only [← hs', moveAndSave, stamped, hposted, Option.some.injEq, exists_eq_left',
      saved_posted, List.mem_cons_self, true_and, withItem]
  simp [Kept, Xor, hgone, hin]

theorem kept_sendOffline_iff (receiver : Line) :
    w.Kept (w.sendOffline p.state receiver).2 ↔ ∀ loaded,
      w.loadPlayerByName receiver = some loaded → w.moveAnswer p.state = NOERROR →
      InboxStored w.ctx (w.withItem p.item loaded)
        (w.rowsAfterSave (w.withItem p.item loaded) p.rows) := by
  unfold sendOffline
  cases hload : w.loadPlayerByName receiver with
  | none => simpa using w.kept_state p
  | some loaded =>
    let s : PostState := { p.state with tmpPlayer := some ⟨loaded, loaded.inbox.map .other⟩ }
    have hanswer : w.moveAnswer s = w.moveAnswer p.state := rfl
    by_cases hmove : w.moveAnswer p.state = NOERROR
    · have hsaved := kept_moveAndSave_iff (w := w) (p := p) (s := s) rfl rfl rfl loaded
      simp only [hanswer, hmove, if_true, s, Option.some.injEq, forall_eq', true_implies]
      exact hsaved
    · have hkept : w.Kept s := kept_of_unmoved (p := p) (s := s) rfl rfl (by simp [s])
      simp only [hanswer, hmove, if_false, s, false_implies, implies_true, iff_true]
      exact hkept

end PostOffice

section Saved

variable (w : PostOffice) (player : Player) {rows : PlayerRows}

/-- A save that cannot read the column stores nothing. -/
theorem rowsAfterSave_of_select (hselect : (w.outcomes 0).ok = false) :
    w.rowsAfterSave player rows = rows := by
  unfold PostOffice.rowsAfterSave savePlayer
  rw [storeQuery_eq, hselect]
  simp

theorem not_inboxStored_of_empty {ctx : SaveContext} {item : Item} {inbox : List Item}
    (hinbox : player.inbox = item :: inbox) (hrows : rows.tables .player_inboxitems = []) :
    ¬InboxStored ctx player rows := by
  unfold InboxStored
  rw [hrows]
  simp [itemsRows, saveItemsRows, inboxList, hinbox, blockRows]

end Saved

/-! ## A letter that is lost -/

def letter : Item := .mk 2597 1 [] false []

theorem letter_plain (id : ℕ) (h : false = true) :
    Cylinders.itemgroup_t.ITEM_GROUP_NONE = .ITEM_GROUP_NONE ∧
      (Cylinders.ItemTypes_t.ITEM_TYPE_NONE = .ITEM_TYPE_NONE ∨
        Cylinders.ItemTypes_t.ITEM_TYPE_NONE = .ITEM_TYPE_RUNE) ∧
      false = false ∧ Cylinders.createdId id = id :=
  absurd h Bool.false_ne_true

/-- Bob is in the database but not online, and the first query of his save is refused. -/
def bobsOffice : PostOffice where
  items id := { id := id, moveable := true, pickupable := true, stackable_plain := letter_plain id }
  getText _ := "Bob".toList
  getPlayerByName _ := none
  loadPlayerByName _ := some { groupId := 1, vocationId := 1, townId := 1, isOffline := true }
  ctx := ⟨0, false, 1048576, id⟩
  outcomes n := if n = 0 then { ok := false } else {}

def letterToBob : Posting where
  item := letter
  before := []
  after := []
  inbox _ := []
  rows := { players := some fun _ => .int 1, tables := fun _ => [] }

end TibiaServer.Game.Mailbox
