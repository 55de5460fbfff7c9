import Mathlib.Algebra.Group.Nat.Defs
import TibiaServer.Library.Run
/-!
# The waiting list

`WaitingList::clientLogin` decides whether a client may log in, and keeps those who may not
in two lists that it searches as one queue.  A call is given what it reads of its player, the
clock and the number of players online, so that every history of the server is a list of
calls.
-/

namespace TibiaServer.Login

/-- `std::size_t` -/
abbrev Size := BitVec 64

/-- Milliseconds since the epoch, as `OTSYS_TIME` returns them in an `int64_t`. -/
abbrev Time := Fin (2 ^ 63)

abbrev Guid := BitVec 32

def Time.toSize (time : Time) : Size := BitVec.ofNat 64 time

inductive AccountType_t
  | ACCOUNT_TYPE_NORMAL | ACCOUNT_TYPE_TUTOR | ACCOUNT_TYPE_SENIORTUTOR
  | ACCOUNT_TYPE_GAMEMASTER | ACCOUNT_TYPE_GOD
  deriving DecidableEq, Repr

def AccountType_t.toNat : AccountType_t → ℕ
  | .ACCOUNT_TYPE_NORMAL => 1
  | .ACCOUNT_TYPE_TUTOR => 2
  | .ACCOUNT_TYPE_SENIORTUTOR => 3
  | .ACCOUNT_TYPE_GAMEMASTER => 4
  | .ACCOUNT_TYPE_GOD => 5

structure Player where
  guid : Guid
  canAlwaysLogin : Bool
  accountType : AccountType_t
  isPremium : Bool

structure Wait where
  timeout : Size
  playerGUID : Guid
  deriving DecidableEq, Repr

/-- A `std::list`: its nodes, and the number that `size` returns. -/
structure WaitList where
  nodes : List Wait
  size : Size
  deriving DecidableEq, Repr

namespace WaitList

def empty : WaitList := ⟨[], 0⟩

def guids (list : WaitList) : List Guid := list.nodes.map (·.playerGUID)

def emplace_back (list : WaitList) (w : Wait) : WaitList := ⟨list.nodes ++ [w], list.size + 1⟩

/-- `(it->timeout - time) <= 0`: the signed clock is converted to the unsigned type of the
timeout, and so is the difference. -/
def isStale (time : Time) (w : Wait) : Bool := w.timeout - time.toSize ≤ 0

def cleanupLoop (time : Time) : List Wait → Size → WaitList
  | [], size => ⟨[], size⟩
  | w :: ws, size =>
    if isStale time w then cleanupLoop time ws (size - 1)
    else ⟨w :: (cleanupLoop time ws size).nodes, (cleanupLoop time ws size).size⟩

def cleanupList (list : WaitList) (time : Time) : WaitList :=
  cleanupLoop time list.nodes list.size

end WaitList

def getTime (slot : Size) : Size :=
  if slot < 5 then 5
  else if slot < 10 then 10
  else if slot < 20 then 20
  else if slot < 50 then 60
  else 120

def getTimeout (slot : Size) : Size := getTime slot + 15

/-- The two lists that are searched for a client. -/
inductive Holder
  | priorityWaitList | waitList
  deriving DecidableEq, Repr

structure WaitListInfo where
  priorityWaitList : WaitList
  waitList : WaitList
  deriving DecidableEq, Repr

namespace WaitListInfo

def empty : WaitListInfo := ⟨.empty, .empty⟩

def list (info : WaitListInfo) : Holder → WaitList
  | .priorityWaitList => info.priorityWaitList
  | .waitList => info.waitList

/-- The queue: everyone in the priority list is ahead of everyone in the other. -/
def guids (info : WaitListInfo) : List Guid := info.priorityWaitList.guids ++ info.waitList.guids

def cleanup (info : WaitListInfo) (time : Time) : WaitListInfo :=
  ⟨info.priorityWaitList.cleanupList time, info.waitList.cleanupList time⟩

/-- The iterator, when it is not `waitList.end()`, and the slot. -/
def findClient (info : WaitListInfo) (guid : Guid) : Option (Holder × ℕ) × ℕ :=
  match info.priorityWaitList.nodes.findIdx? (·.playerGUID = guid) with
  | some i => (some (.priorityWaitList, i), 1 + i)
  | none =>
    match info.waitList.nodes.findIdx? (·.playerGUID = guid) with
    | some i => (some (.waitList, i), 1 + info.priorityWaitList.nodes.length + i)
    | none => (none, 1 + info.priorityWaitList.nodes.length + info.waitList.nodes.length)

/-- `info->waitList.erase(it)`: the node is unlinked from the list that holds it, and counted
off the list whose method is called. -/
def erase (info : WaitListInfo) : Holder × ℕ → WaitListInfo
  | (.priorityWaitList, i) =>
    { priorityWaitList :=
        { info.priorityWaitList with nodes := info.priorityWaitList.nodes.eraseIdx i }
      waitList := { info.waitList with size := info.waitList.size - 1 } }
  | (.waitList, i) =>
    { info with waitList := ⟨info.waitList.nodes.eraseIdx i, info.waitList.size - 1⟩ }

/-- `it->timeout = timeout` -/
def setTimeout (info : WaitListInfo) (timeout : Size) : Holder × ℕ → WaitListInfo
  | (.priorityWaitList, i) =>
    { info with priorityWaitList :=
        { info.priorityWaitList with
          nodes := info.priorityWaitList.nodes.modify i ({ · with timeout := timeout }) } }
  | (.waitList, i) =>
    { info with waitList :=
        { info.waitList with
          nodes := info.waitList.nodes.modify i ({ · with timeout := timeout }) } }

end WaitListInfo

/-- One call of `clientLogin`, with what it reads. -/
structure Call where
  player : Player
  time : Time
  maxPlayers : BitVec 32
  playersOnline : ℕ

namespace Call

/-- `OTSYS_TIME() + (getTimeout(slot) * 1000)` -/
def timeout (call : Call) (slot : Size) : Size := call.time.toSize + getTimeout slot * 1000

/-- The tests in front of the clean-up let the client in. -/
def passes (call : Call) (info : WaitListInfo) : Bool :=
  (call.player.canAlwaysLogin ||
    decide (AccountType_t.ACCOUNT_TYPE_GAMEMASTER.toNat ≤ call.player.accountType.toNat)) ||
  (call.maxPlayers == 0 ||
    (info.priorityWaitList.nodes.isEmpty && info.waitList.nodes.isEmpty &&
      decide (call.playersOnline < call.maxPlayers.toNat)))

/-- A client that waits already. -/
def retry (call : Call) (info : WaitListInfo) (it : Holder × ℕ) (slot : ℕ) :
    Bool × WaitListInfo :=
  if call.playersOnline + slot ≤ call.maxPlayers.toNat then (true, info.erase it)
  else (false, info.setTimeout (call.timeout (BitVec.ofNat 64 slot)) it)

/-- A client that does not wait yet. -/
def enqueue (call : Call) (info : WaitListInfo) : WaitListInfo :=
  let slot := info.priorityWaitList.size
  if call.player.isPremium then
    { info with priorityWaitList :=
        info.priorityWaitList.emplace_back ⟨call.timeout (slot + 1), call.player.guid⟩ }
  else
    let slot := slot + info.waitList.size
    { info with waitList :=
        info.waitList.emplace_back ⟨call.timeout (slot + 1), call.player.guid⟩ }

def clientLogin (call : Call) (info : WaitListInfo) : Bool × WaitListInfo :=
  if call.passes info then (true, info)
  else
    let info := info.cleanup call.time
    match info.findClient call.player.guid with
    | (some it, slot) => call.retry info it slot
    | (none, _) => (false, call.enqueue info)

end Call

def getClientSlot (info : WaitListInfo) (player : Player) : ℕ :=
  match info.findClient player.guid with
  | (some _, slot) => slot
  | (none, _) => 0

/-- The server takes one call after the other. -/
def step (info : WaitListInfo) (call : Call) : Option WaitListInfo :=
  some (call.clientLogin info).2

end TibiaServer.Login
