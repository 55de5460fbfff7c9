import TibiaServer.Cylinders.State
import TibiaServer.Library.Ancestors
/-!
# Trades between players

A trade is spread over the partner, the item and the state of two players, the map of
all items that are being traded, and the counts of references to these.  Where items
stand matters only as far as one is inside another; what the checks of a request and
the moves of a transfer find is given with the request.
-/

namespace TibiaServer.Game

open TibiaServer.Cylinders
open TibiaServer.Library
open tradestate_t

/-- What a `Player` knows of his trade. -/
structure Trader where
  tradePartner : Option PlayerRef := none
  tradeItem : Option ItemRef := none
  tradeState : tradestate_t := .TRADE_NONE
  deriving DecidableEq

structure Trades where
  player : PlayerRef → Trader := fun _ => {}
  /-- whom `getPlayerByID` finds -/
  online : PlayerRef → Bool := fun _ => true
  tradeItems : List (ItemRef × PlayerRef) := []
  referenceCounter : ItemRef → ℕ := fun _ => 1
  toReleaseItems : List ItemRef := []
  /-- the container that an item stands in -/
  parent : ItemRef → Option ItemRef := fun _ => none
  /-- All containers are below it. -/
  items : ℕ := 0

namespace Trades

variable (g : Trades)

def keys : List ItemRef := g.tradeItems.map Prod.fst

/-- `container->isHoldingItem(item)`, however deep -/
def isHoldingItem (container item : ItemRef) : Bool :=
  container ∈ ancestors g.parent g.items item

def setTrader (p : PlayerRef) (trader : Trader) : Trades :=
  { g with player := Function.update g.player p trader }

def setTradeState (p : PlayerRef) (state : tradestate_t) : Trades :=
  g.setTrader p { g.player p with tradeState := state }

/-- `tradeItems.find`, and what follows where it is found: `ReleaseItem` and `erase` -/
def release (item : Option ItemRef) : Trades :=
  match item with
  | none => g
  | some item =>
    if item ∈ g.keys then
      { g with
        tradeItems := g.tradeItems.filter fun entry => entry.1 ≠ item
        toReleaseItems := g.toReleaseItems ++ [item] }
    else g

/-- What `internalCloseTrade` does to each of the two. -/
def cancel (p : PlayerRef) : Trades := (g.release (g.player p).tradeItem).setTrader p {}

def internalCloseTrade (player : PlayerRef) : Trades :=
  match (g.player player).tradePartner with
  | none =>
    if (g.player player).tradeState = TRADE_TRANSFER then g else g.cancel player
  | some tradePartner =>
    if (g.player tradePartner).tradeState = TRADE_TRANSFER ∨
        (g.player player).tradeState = TRADE_TRANSFER then g
    else (g.cancel player).cancel tradePartner

def internalStartTrade (player tradePartner : PlayerRef) (tradeItem : ItemRef) : Bool × Trades :=
  if (g.player player).tradeState ≠ TRADE_NONE ∧
      ¬((g.player player).tradeState = TRADE_ACKNOWLEDGE ∧
        (g.player player).tradePartner = some tradePartner) then (false, g)
  else if (g.player tradePartner).tradeState ≠ TRADE_NONE ∧
      (g.player tradePartner).tradePartner ≠ some player then (false, g)
  else
    let g := g.setTrader player
      { tradePartner := some tradePartner, tradeItem := some tradeItem
        tradeState := TRADE_INITIATED }
    let g :=
      { g with
        referenceCounter :=
          Function.update g.referenceCounter tradeItem (g.referenceCounter tradeItem + 1)
        tradeItems :=
          (tradeItem, player) :: g.tradeItems.filter fun entry => entry.1 ≠ tradeItem }
    (true,
      if (g.player tradePartner).tradeState = TRADE_NONE then
        g.setTrader tradePartner
          { g.player tradePartner with
            tradeState := TRADE_ACKNOWLEDGE, tradePartner := some player }
      else g)

/-- What the checks of `playerRequestTrade` find. -/
structure RequestView where
  areInRange : Bool := true
  canThrowObjectTo : Bool := true
  /-- `internalGetThing` -/
  tradeThing : Option ItemRef
  /-- `getClientID() == spriteId` -/
  isSprite : Bool := true
  isPickupable : Bool := true
  hasUniqueId : Bool := false
  sameFloor : Bool := true
  adjacent : Bool := true
  /-- 0 for what is no container -/
  itemHoldingCount : ℕ := 0
  onTradeRequest : Bool := true

/-- The item, one that it is in or one that is in it is being traded. -/
def alreadyTraded (tradeItem : ItemRef) : Bool :=
  g.keys.any fun item =>
    tradeItem = item || g.isHoldingItem tradeItem item || g.isHoldingItem item tradeItem

/-- The item that `playerRequestTrade` offers once all its checks are passed. -/
def requestedItem (player tradePlayer : PlayerRef) (view : RequestView) : Option ItemRef :=
  if !g.online player then none
  else if !g.online tradePlayer ∨ tradePlayer = player then none
  else if !view.areInRange then none
  else if !view.canThrowObjectTo then none
  else
    match view.tradeThing with
    | none => none
    | some tradeItem =>
      if !view.isSprite ∨ !view.isPickupable ∨ view.hasUniqueId then none
      else if !view.sameFloor then none
      -- the request comes again once the player has walked there
      else if !view.adjacent then none
      else if g.alreadyTraded tradeItem then none
      else if view.itemHoldingCount + 1 > 100 then none
      else if !view.onTradeRequest then none
      else some tradeItem

def playerRequestTrade (player tradePlayer : PlayerRef) (view : RequestView) : Trades :=
  match g.requestedItem player tradePlayer view with
  | none => g
  | some tradeItem => (g.internalStartTrade player tradePlayer tradeItem).2

/-- What the transfer of the two items finds: whether the four dry runs and the two moves
succeed, the containers that the items come to stand in, and the players whose trades the
notifications of the moves close. -/
structure TransferView where
  dryRuns : Bool := true
  moves1 : Bool := true
  moves2 : Bool := true
  place1 : Option ItemRef := none
  place2 : Option ItemRef := none
  closes : List PlayerRef := []

/-- A container is not put into itself or into what it holds. -/
def fits (item : ItemRef) (place : Option ItemRef) : Bool :=
  place.all fun container =>
    container < g.items && container ≠ item && !g.isHoldingItem item container

def setParent (item : ItemRef) (place : Option ItemRef) : Trades :=
  { g with parent := Function.update g.parent item place }

/-- Whether the items are transferred, and what that leaves. -/
def transfer (tradeItem1 tradeItem2 : Option ItemRef) (view : TransferView) : Bool × Trades :=
  match tradeItem1, tradeItem2 with
  | some item1, some item2 =>
    if !view.dryRuns then (false, g)
    else if !(view.moves1 && g.fits item1 view.place1) then (false, g)
    else
      let g := g.setParent item1 view.place1
      -- the answer to the second move is not looked at
      let g := if view.moves2 && g.fits item2 view.place2 then g.setParent item2 view.place2 else g
      (true, view.closes.foldl internalCloseTrade g)
  -- `internalAddItem` refuses a null item
  | _, _ => (false, g)

/-- What `playerAcceptTrade` leaves, and the two items that it has transferred. -/
structure AcceptResult where
  trades : Trades
  transferred : Option (ItemRef × ItemRef) := none

/-- Both have accepted. -/
def acceptBoth (player tradePartner : PlayerRef) (view : TransferView) : AcceptResult :=
  let tradeItem1 := (g.player player).tradeItem
  let tradeItem2 := (g.player tradePartner).tradeItem
  let g := (g.setTradeState player TRADE_TRANSFER).setTradeState tradePartner TRADE_TRANSFER
  let g := (g.release tradeItem1).release tradeItem2
  let (isSuccess, g) := g.transfer tradeItem1 tradeItem2 view
  { trades := (g.setTrader player {}).setTrader tradePartner {}
    transferred :=
      if isSuccess then tradeItem1.bind fun item1 => tradeItem2.map fun item2 => (item1, item2)
      else none }

def playerAcceptTrade (player : PlayerRef) (canThrowObjectTo onTradeAccept : Bool)
    (view : TransferView) : AcceptResult :=
  if !g.online player then { trades := g }
  else if ¬((g.player player).tradeState = TRADE_ACKNOWLEDGE ∨
      (g.player player).tradeState = TRADE_INITIATED) then { trades := g }
  else
    match (g.player player).tradePartner with
    | none => { trades := g }
    | some tradePartner =>
      if !canThrowObjectTo then { trades := g }
      else
        let g := g.setTradeState player TRADE_ACCEPT
        if (g.player tradePartner).tradeState ≠ TRADE_ACCEPT then { trades := g }
        else if !onTradeAccept then { trades := g.internalCloseTrade player }
        else g.acceptBoth player tradePartner view

def playerCloseTrade (player : PlayerRef) : Trades :=
  if !g.online player then g else g.internalCloseTrade player

/-- What `Player::onRemoveCreature` does about trades. -/
def logout (player : PlayerRef) : Trades :=
  if !g.online player then g
  else
    let g := if (g.player player).tradePartner.isSome then g.internalCloseTrade player else g
    { g with online := Function.update g.online player false }

def login (player : PlayerRef) : Trades :=
  { g with online := Function.update g.online player true }

/-- `Game::cleanup` -/
def cleanup : Trades :=
  { g with
    referenceCounter := fun item => g.referenceCounter item - g.toReleaseItems.count item
    toReleaseItems := [] }

end Trades

/-- The requests of the players, and what happens in between. -/
inductive TradeAction
  | request (player tradePlayer : PlayerRef) (view : Trades.RequestView)
  | accept (player : PlayerRef) (canThrowObjectTo onTradeAccept : Bool) (view : Trades.TransferView)
  | close (player : PlayerRef)
  | logout (player : PlayerRef)
  | login (player : PlayerRef)
  | cleanup

def TradeAction.step (g : Trades) : TradeAction → Option Trades
  | .request player tradePlayer view => some (g.playerRequestTrade player tradePlayer view)
  | .accept player canThrowObjectTo onTradeAccept view =>
    some (g.playerAcceptTrade player canThrowObjectTo onTradeAccept view).trades
  | .close player => some (g.playerCloseTrade player)
  | .logout player => some (g.logout player)
  | .login player => some (g.login player)
  | .cleanup => some g.cleanup

end TibiaServer.Game
