import Mathlib.Data.Finset.Sort
import TibiaServer.Library.Run
/-!
# Shop windows

A player points to the NPC whose shop window is open, and the NPC keeps the set of the players
it trades with.  Both sides are written by the calls that open a window, by the four ways to
close one, and by the reload of the NPCs.  The scripts that are told of a closed window or of a
creature that left do not open windows.
-/

namespace TibiaServer.Players.ShopWindows

abbrev PlayerId := ℕ
abbrev NpcId := ℕ

structure ShopInfo where
  itemId : UInt16
  subType : ℤ
  buyPrice : UInt32
  sellPrice : UInt32
  realName : String

structure Player where
  shopOwner : Option NpcId := none
  purchaseCallback : ℤ := -1
  saleCallback : ℤ := -1
  shopItemList : List ShopInfo := []

/-- `players` and `npcs` are the ones in the game; a set of players is ordered by their
addresses. -/
structure State where
  players : Finset PlayerId := ∅
  npcs : Finset NpcId := ∅
  player : PlayerId → Player := fun _ => {}
  shopPlayerSet : NpcId → Finset PlayerId := fun _ => ∅

/-! ## Players and NPCs -/

def State.modify (s : State) (p : PlayerId) (f : Player → Player) : State :=
  { s with player := Function.update s.player p (f (s.player p)) }

def setShopOwner (s : State) (p : PlayerId) (owner : Option NpcId) (onBuy onSell : ℤ) : State :=
  s.modify p fun x =>
    { x with shopOwner := owner, purchaseCallback := onBuy, saleCallback := onSell }

def setShopItemList (s : State) (p : PlayerId) (items : List ShopInfo) : State :=
  s.modify p fun x => { x with shopItemList := items }

def addShopPlayer (s : State) (n : NpcId) (p : PlayerId) : State :=
  { s with shopPlayerSet := Function.update s.shopPlayerSet n (insert p (s.shopPlayerSet n)) }

def removeShopPlayer (s : State) (n : NpcId) (p : PlayerId) : State :=
  { s with shopPlayerSet := Function.update s.shopPlayerSet n ((s.shopPlayerSet n).erase p) }

/-- `Player::closeShopWindow`; the NPC's `onPlayerEndTrade` takes the player out of its set. -/
def closeShopWindow (s : State) (p : PlayerId) : State × Bool :=
  match (s.player p).shopOwner with
  | none => (setShopItemList s p [], false)
  | some n => (setShopItemList (removeShopPlayer (setShopOwner s p none (-1) (-1)) n p) p [], true)

/-- The `while` loop, with fuel. -/
def closeWhile : ℕ → State → NpcId → Option State
  | 0, s, n => if (s.shopPlayerSet n).Nonempty then none else some s
  | fuel + 1, s, n =>
    if h : (s.shopPlayerSet n).Nonempty then
      let p := (s.shopPlayerSet n).min' h
      let (t, closed) := closeShopWindow s p
      closeWhile fuel (if closed then t else removeShopPlayer t n p) n
    else
      some s

/-- A window that is not closed by its owner's loop is met twice. -/
def closeAllShopWindows (s : State) (n : NpcId) : Option State :=
  closeWhile (2 * (s.shopPlayerSet n).card) s n

/-! ## Scripts -/

/-- `openShopWindow`, once the arguments were read; an older window is closed in any case. -/
def luaOpenShopWindow (s : State) (npc : Option NpcId) (p : PlayerId) (items : List ShopInfo)
    (buyCallback sellCallback : ℤ) : State :=
  let t := (closeShopWindow s p).1
  match npc with
  | none => t
  | some n =>
    setShopItemList (setShopOwner (addShopPlayer t n p) p (some n) buyCallback sellCallback) p items

/-- An NPC closes the window only if it is its own.  The list of items stays. -/
def luaCloseShopWindow (s : State) (n : NpcId) (p : PlayerId) : State :=
  if (s.player p).shopOwner = some n then
    removeShopPlayer (setShopOwner s p none (-1) (-1)) n p
  else
    s

/-! ## Coming and going -/

def login (s : State) (p : PlayerId) : State :=
  let t := s.modify p fun _ => {}
  { t with players := insert p t.players }

/-- `Player::onRemoveCreature`, and the list of players. -/
def logout (s : State) (p : PlayerId) : State :=
  let t := (closeShopWindow s p).1
  { t with players := t.players.erase p }

/-- `Npc::reset` of one NPC. -/
def reset (s : State) (n : NpcId) : State :=
  { s with shopPlayerSet := Function.update s.shopPlayerSet n ∅ }

def placeNpc (s : State) (n : NpcId) : State :=
  let t := reset s n
  { t with npcs := insert n t.npcs }

/-- `Npc::onRemoveCreature`, and the list of NPCs. -/
def removeNpc (s : State) (n : NpcId) : Option State :=
  (closeAllShopWindows s n).map fun t => { t with npcs := t.npcs.erase n }

def closeEach : State → List NpcId → Option State
  | s, [] => some s
  | s, n :: rest => (closeAllShopWindows s n).bind fun t => closeEach t rest

/-- `Npcs::reload`: every window of every NPC is closed before the first NPC is reset. -/
def reload (s : State) : Option State :=
  let npcs := s.npcs.sort (· ≤ ·)
  (closeEach s npcs).map fun t => npcs.foldl reset t

/-! ## Runs -/

inductive Action where
  | placeNpc (n : NpcId)
  | login (p : PlayerId)
  | luaOpenShopWindow (npc : Option NpcId) (p : PlayerId) (items : List ShopInfo)
      (buyCallback sellCallback : ℤ)
  | closeShopWindow (p : PlayerId)
  | luaCloseShopWindow (n : NpcId) (p : PlayerId)
  | logout (p : PlayerId)
  | removeNpc (n : NpcId)
  | reload

/-- The players and NPCs named are in the game, the new ones are not. -/
def Enabled (s : State) : Action → Prop
  | .placeNpc n => n ∉ s.npcs
  | .login p => p ∉ s.players
  | .luaOpenShopWindow npc p _ _ _ => p ∈ s.players ∧ ∀ n ∈ npc, n ∈ s.npcs
  | .closeShopWindow p => p ∈ s.players
  | .luaCloseShopWindow n p => n ∈ s.npcs ∧ p ∈ s.players
  | .logout p => p ∈ s.players
  | .removeNpc n => n ∈ s.npcs
  | .reload => True

instance (s : State) : (a : Action) → Decidable (Enabled s a)
  | .placeNpc n => inferInstanceAs (Decidable (n ∉ s.npcs))
  | .login p => inferInstanceAs (Decidable (p ∉ s.players))
  | .luaOpenShopWindow npc p _ _ _ =>
    inferInstanceAs (Decidable (p ∈ s.players ∧ ∀ n ∈ npc, n ∈ s.npcs))
  | .closeShopWindow p => inferInstanceAs (Decidable (p ∈ s.players))
  | .luaCloseShopWindow n p => inferInstanceAs (Decidable (n ∈ s.npcs ∧ p ∈ s.players))
  | .logout p => inferInstanceAs (Decidable (p ∈ s.players))
  | .removeNpc n => inferInstanceAs (Decidable (n ∈ s.npcs))
  | .reload => inferInstanceAs (Decidable True)

def act (s : State) : Action → Option State
  | .placeNpc n => some (placeNpc s n)
  | .login p => some (login s p)
  | .luaOpenShopWindow npc p items buyCallback sellCallback =>
    some (luaOpenShopWindow s npc p items buyCallback sellCallback)
  | .closeShopWindow p => some (closeShopWindow s p).1
  | .luaCloseShopWindow n p => some (luaCloseShopWindow s n p)
  | .logout p => some (logout s p)
  | .removeNpc n => removeNpc s n
  | .reload => reload s

def step (s : State) (a : Action) : Option State :=
  if Enabled s a then act s a else none

/-! ## The two sides agree -/

/-- A player's window is open at an NPC exactly if the NPC has the player in its set, and no
window is open at an NPC that has left the game. -/
def SessionsAgree (s : State) : Prop :=
  (∀ p n, (s.player p).shopOwner = some n ↔ p ∈ s.shopPlayerSet n) ∧
    ∀ p n, (s.player p).shopOwner = some n → n ∈ s.npcs

structure Consistent (s : State) : Prop where
  owner_iff : ∀ p n, (s.player p).shopOwner = some n ↔ p ∈ s.shopPlayerSet n
  npc_mem : ∀ p n, (s.player p).shopOwner = some n → n ∈ s.npcs
  player_mem : ∀ p n, (s.player p).shopOwner = some n → p ∈ s.players

variable {s t : State} {n m : NpcId} {p q : PlayerId}

theorem player_modify (s : State) (p q : PlayerId) (f : Player → Player) :
    (s.modify p f).player q = if q = p then f (s.player q) else s.player q := by
  unfold State.modify
  by_cases hq : q = p
  · subst hq
    rw [if_pos rfl]
    exact Function.update_self ..
  · rw [if_neg hq]
    exact Function.update_of_ne hq ..

@[simp] theorem shopOwner_setShopOwner (s : State) (p q : PlayerId) (owner : Option NpcId)
    (onBuy onSell : ℤ) :
    ((setShopOwner s p owner onBuy onSell).player q).shopOwner =
      if q = p then owner else (s.player q).shopOwner := by
  rw [setShopOwner, player_modify]
  split <;> rfl

@[simp] theorem shopOwner_setShopItemList (s : State) (p q : PlayerId) (items : List ShopInfo) :
    ((setShopItemList s p items).player q).shopOwner = (s.player q).shopOwner := by
  rw [setShopItemList, player_modify]
  split <;> rfl

@[simp] theorem shopPlayerSet_setShopItemList (s : State) (p : PlayerId) (items : List ShopInfo) :
    (setShopItemList s p items).shopPlayerSet = s.shopPlayerSet := rfl

@[simp] theorem shopPlayerSet_setShopOwner (s : State) (p : PlayerId) (owner : Option NpcId)
    (onBuy onSell : ℤ) :
    (setShopOwner s p owner onBuy onSell).shopPlayerSet = s.shopPlayerSet := rfl

theorem mem_removeShopPlayer :
    q ∈ (removeShopPlayer s n p).shopPlayerSet m ↔
      q ∈ s.shopPlayerSet m ∧ ¬ (m = n ∧ q = p) := by
  unfold removeShopPlayer
  by_cases hm : m = n
  · subst hm
    simp [and_comm]
  · simp [hm]

theorem mem_addShopPlayer :
    q ∈ (addShopPlayer s n p).shopPlayerSet m ↔ q ∈ s.shopPlayerSet m ∨ (m = n ∧ q = p) := by
  unfold addShopPlayer
  by_cases hm : m = n
  · subst hm
    simp [or_comm]
  · simp [hm]

theorem start_consistent : Consistent {} where
  owner_iff p n := by simp
  npc_mem p n h := by simp at h
  player_mem p n h := by simp at h

/-- Redirecting one player, on both sides. -/
theorem Consistent.redirect (owner : Option NpcId) (h : Consistent s)
    (hplayers : t.players = s.players) (hnpcs : t.npcs = s.npcs)
    (howner : ∀ q, (t.player q).shopOwner = if q = p then owner else (s.player q).shopOwner)
    (hset : ∀ q n, q ∈ t.shopPlayerSet n ↔ if q = p then owner = some n else
      q ∈ s.shopPlayerSet n)
    (hmem : ∀ n ∈ owner, n ∈ s.npcs ∧ p ∈ s.players) : Consistent t where
  owner_iff q n := by
    rw [howner, hset]
    split
    · exact Iff.rfl
    · exact h.owner_iff q n
  npc_mem q n hq := by
    rw [howner] at hq
    rw [hnpcs]
    split at hq
    · exact (hmem n hq).1
    · exact h.npc_mem q n hq
  player_mem q n hq := by
    rw [howner] at hq
    rw [hplayers]
    split at hq
    · rename_i hqp
      rw [hqp]
      exact (hmem n hq).2
    · exact h.player_mem q n hq

/-! ## Closing -/

/-- What every caller of `closeShopWindow` uses: afterwards the player is in no set. -/
structure Closed (s t : State) (p : PlayerId) : Prop where
  players : t.players = s.players
  npcs : t.npcs = s.npcs
  owner : ∀ q, (t.player q).shopOwner = if q = p then none else (s.player q).shopOwner
  set : ∀ n, t.shopPlayerSet n = (s.shopPlayerSet n).erase p

theorem Closed.consistent (hclosed : Closed s t p) (h : Consistent s) : Consistent t := by
  refine h.redirect none hclosed.players hclosed.npcs hclosed.owner (fun q n => ?_) (by simp)
  rw [hclosed.set, Finset.mem_erase]
  by_cases hq : q = p
  · simp [hq]
  · simp [hq]

theorem closeShopWindow_closed (h : Consistent s) (p : PlayerId) :
    Closed s (closeShopWindow s p).1 p := by
  unfold closeShopWindow
  cases howner : (s.player p).shopOwner with
  | none =>
    refine ⟨rfl, rfl, fun q => ?_, fun n => ?_⟩
    · by_cases hq : q = p
      · simp [hq, howner]
      · simp [hq]
    · have hnot : p ∉ s.shopPlayerSet n := by
        rw [← h.owner_iff, howner]
        simp
      exact (Finset.erase_eq_of_notMem hnot).symm
  | some n =>
    refine ⟨rfl, rfl, fun q => ?_, fun m => ?_⟩
    · rw [shopOwner_setShopItemList]
      exact shopOwner_setShopOwner s p q none (-1) (-1)
    · ext q
      rw [shopPlayerSet_setShopItemList, mem_removeShopPlayer, shopPlayerSet_setShopOwner,
        Finset.mem_erase]
      have hp := h.owner_iff p m
      rw [howner] at hp
      grind

theorem closeShopWindow_snd (h : (s.player p).shopOwner = some n) :
    (closeShopWindow s p).2 = true := by
  simp [closeShopWindow, h]

/-- The loop ends once for each player that trades with the NPC. -/
theorem closeWhile_spec (fuel : ℕ) : ∀ {s : State}, Consistent s →
    (s.shopPlayerSet n).card ≤ fuel →
    ∃ t, closeWhile fuel s n = some t ∧ Consistent t ∧ t.players = s.players ∧
      t.npcs = s.npcs ∧ t.shopPlayerSet n = ∅ ∧ ∀ m, t.shopPlayerSet m ⊆ s.shopPlayerSet m := by
  induction fuel with
  | zero =>
    intro s h hcard
    have hempty : s.shopPlayerSet n = ∅ := Finset.card_eq_zero.mp (Nat.le_zero.mp hcard)
    refine ⟨s, ?_, h, rfl, rfl, hempty, fun _ => Finset.Subset.refl _⟩
    simp [closeWhile, hempty]
  | succ fuel ih =>
    intro s h hcard
    unfold closeWhile
    by_cases hne : (s.shopPlayerSet n).Nonempty
    · rw [dif_pos hne]
      set p := (s.shopPlayerSet n).min' hne with hp
      have hmem : p ∈ s.shopPlayerSet n := Finset.min'_mem _ hne
      have hclosed := closeShopWindow_closed h p
      have htrue := closeShopWindow_snd ((h.owner_iff p n).mpr hmem)
      have hcard' : ((closeShopWindow s p).1.shopPlayerSet n).card ≤ fuel := by
        rw [hclosed.set, Finset.card_erase_of_mem hmem]
        omega
      obtain ⟨t, ht, hcons, hplayers, hnpcs, hempty, hsub⟩ := ih (hclosed.consistent h) hcard'
      refine ⟨t, ?_, hcons, hplayers.trans hclosed.players, hnpcs.trans hclosed.npcs, hempty,
        fun m => ?_⟩
      · simp only [htrue, if_true]
        exact ht
      · refine (hsub m).trans ?_
        rw [hclosed.set]
        exact Finset.erase_subset p _
    · have hempty : s.shopPlayerSet n = ∅ := Finset.not_nonempty_iff_eq_empty.mp hne
      rw [dif_neg hne]
      exact ⟨s, rfl, h, rfl, rfl, hempty, fun _ => Finset.Subset.refl _⟩

theorem closeAllShopWindows_spec (h : Consistent s) (n : NpcId) :
    ∃ t, closeAllShopWindows s n = some t ∧ Consistent t ∧ t.players = s.players ∧
      t.npcs = s.npcs ∧ t.shopPlayerSet n = ∅ ∧ ∀ m, t.shopPlayerSet m ⊆ s.shopPlayerSet m :=
  closeWhile_spec _ h (Nat.le_mul_of_pos_left _ Nat.two_pos)

theorem closeEach_spec : ∀ {L : List NpcId} {s : State}, Consistent s →
    ∃ t, closeEach s L = some t ∧ Consistent t ∧ (∀ n ∈ L, t.shopPlayerSet n = ∅) ∧
      ∀ m, t.shopPlayerSet m ⊆ s.shopPlayerSet m := by
  intro L
  induction L with
  | nil => exact fun h => ⟨_, rfl, h, by simp, fun _ => Finset.Subset.refl _⟩
  | cons n rest ih =>
    intro s h
    obtain ⟨t, ht, hcons, -, -, hempty, hsub⟩ := closeAllShopWindows_spec h n
    obtain ⟨u, hu, hcons', hempty', hsub'⟩ := ih hcons
    refine ⟨u, by simp [closeEach, ht, hu], hcons', fun m hm => ?_,
      fun m => (hsub' m).trans (hsub m)⟩
    rcases List.mem_cons.mp hm with rfl | hm
    · exact Finset.subset_empty.mp (hempty ▸ hsub' m)
    · exact hempty' m hm

/-- Nothing is lost when an NPC without shop players is reset. -/
theorem reset_of_empty (h : s.shopPlayerSet n = ∅) : reset s n = s := by
  unfold reset
  rw [← h, Function.update_eq_self]

theorem foldl_reset_of_empty : ∀ {L : List NpcId}, (∀ n ∈ L, s.shopPlayerSet n = ∅) →
    L.foldl reset s = s := by
  intro L
  induction L with
  | nil => exact fun _ => rfl
  | cons n rest ih =>
    intro h
    rw [List.foldl_cons, reset_of_empty (h n List.mem_cons_self)]
    exact ih fun m hm => h m (List.mem_cons_of_mem _ hm)

/-! ## Every action -/

theorem luaOpenShopWindow_consistent (h : Consistent s) {npc : Option NpcId}
    (hp : p ∈ s.players) (hnpc : ∀ n ∈ npc, n ∈ s.npcs) (items : List ShopInfo)
    (onBuy onSell : ℤ) : Consistent (luaOpenShopWindow s npc p items onBuy onSell) := by
  have hclosed := closeShopWindow_closed h p
  have hcons := hclosed.consistent h
  unfold luaOpenShopWindow
  cases npc with
  | none => exact hcons
  | some n =>
    refine hcons.redirect (p := p) (some n) rfl rfl (fun q => ?_) (fun q m => ?_) ?_
    · simp only [shopOwner_setShopItemList, shopOwner_setShopOwner]
      rfl
    · simp only [shopPlayerSet_setShopItemList, shopPlayerSet_setShopOwner, mem_addShopPlayer]
      by_cases hq : q = p
      · simp [hq, hclosed.set, eq_comm]
      · simp [hq]
    · intro m hm
      obtain rfl : n = m := Option.some.inj hm
      rw [hclosed.npcs, hclosed.players]
      exact ⟨hnpc n rfl, hp⟩

theorem luaCloseShopWindow_consistent (h : Consistent s) (n : NpcId) (p : PlayerId) :
    Consistent (luaCloseShopWindow s n p) := by
  unfold luaCloseShopWindow
  split
  · rename_i howner
    refine h.redirect (p := p) none rfl rfl (fun q => ?_) (fun q m => ?_) (by simp)
    · exact shopOwner_setShopOwner s p q none (-1) (-1)
    · rw [mem_removeShopPlayer, shopPlayerSet_setShopOwner]
      have hq := h.owner_iff q m
      by_cases hqp : q = p
      · subst hqp
        rw [howner] at hq
        simp [← hq, eq_comm]
      · simp [hqp]
  · exact h

theorem login_consistent (h : Consistent s) (hp : p ∉ s.players) : Consistent (login s p) := by
  have hold : ∀ q, ((login s p).player q).shopOwner = (s.player q).shopOwner := by
    intro q
    unfold login
    rw [player_modify]
    split
    · rename_i hqp
      rw [hqp]
      cases howner : (s.player p).shopOwner with
      | none => rfl
      | some n => exact absurd (h.player_mem p n howner) hp
    · rfl
  refine ⟨fun q n => ?_, fun q n hq => ?_, fun q n hq => ?_⟩
  · rw [hold]
    exact h.owner_iff q n
  · rw [hold] at hq
    exact h.npc_mem q n hq
  · rw [hold] at hq
    exact Finset.mem_insert_of_mem (h.player_mem q n hq)

theorem logout_consistent (h : Consistent s) (p : PlayerId) : Consistent (logout s p) := by
  have hclosed := closeShopWindow_closed h p
  have hcons := hclosed.consistent h
  refine ⟨hcons.owner_iff, hcons.npc_mem, fun q n hq => Finset.mem_erase.mpr ⟨?_, ?_⟩⟩
  · rintro rfl
    have hnone := hclosed.owner q
    rw [if_pos rfl] at hnone
    exact Option.some_ne_none n (hq.symm.trans hnone)
  · exact hcons.player_mem q n hq

/-- No player is left in the set of an NPC that is not in the game. -/
theorem Consistent.empty_of_notMem (h : Consistent s) (hn : n ∉ s.npcs) :
    s.shopPlayerSet n = ∅ := by
  refine Finset.eq_empty_of_forall_notMem fun p hp => hn ?_
  exact h.npc_mem p n ((h.owner_iff p n).mpr hp)

theorem placeNpc_consistent (h : Consistent s) (hn : n ∉ s.npcs) : Consistent (placeNpc s n) := by
  unfold placeNpc
  rw [reset_of_empty (h.empty_of_notMem hn)]
  exact ⟨h.owner_iff, fun p m hp => Finset.mem_insert_of_mem (h.npc_mem p m hp), h.player_mem⟩

theorem removeNpc_spec (h : Consistent s) (n : NpcId) :
    ∃ t, removeNpc s n = some t ∧ Consistent t := by
  obtain ⟨t, ht, hcons, -, -, hempty, -⟩ := closeAllShopWindows_spec h n
  refine ⟨{ t with npcs := t.npcs.erase n }, by simp [removeNpc, ht], hcons.owner_iff, ?_,
    hcons.player_mem⟩
  intro p m hp
  refine Finset.mem_erase.mpr ⟨?_, hcons.npc_mem p m hp⟩
  rintro rfl
  have hmem := (hcons.owner_iff p m).mp hp
  rw [hempty] at hmem
  exact Finset.notMem_empty p hmem

theorem reload_spec (h : Consistent s) : ∃ t, reload s = some t ∧ Consistent t := by
  obtain ⟨t, ht, hcons, hempty, -⟩ := closeEach_spec (L := s.npcs.sort (· ≤ ·)) h
  refine ⟨t, ?_, hcons⟩
  simp only [reload, ht, Option.map_some, foldl_reset_of_empty hempty]

/-- Every enabled action returns, and both sides agree afterwards. -/
theorem act_spec (h : Consistent s) (a : Action) (ha : Enabled s a) :
    ∃ t, act s a = some t ∧ Consistent t := by
  cases a with
  | placeNpc n => exact ⟨_, rfl, placeNpc_consistent h ha⟩
  | login p => exact ⟨_, rfl, login_consistent h ha⟩
  | luaOpenShopWindow npc p items buyCallback sellCallback =>
    exact ⟨_, rfl, luaOpenShopWindow_consistent h ha.1 ha.2 items buyCallback sellCallback⟩
  | closeShopWindow p => exact ⟨_, rfl, (closeShopWindow_closed h p).consistent h⟩
  | luaCloseShopWindow n p => exact ⟨_, rfl, luaCloseShopWindow_consistent h n p⟩
  | logout p => exact ⟨_, rfl, logout_consistent h p⟩
  | removeNpc n => exact removeNpc_spec h n
  | reload => exact reload_spec h

/-- **Shop sessions agree** in every state of every run, and every action returns. -/
theorem sessions_agree (as : List Action) :
    Library.Run.Always step (fun s => SessionsAgree s ∧ ∀ a, Enabled s a → (step s a).isSome)
      {} as := by
  refine Library.Run.always_of_returns (I := Consistent) (fun s a t ht => ?_) (fun s a hs ha => ?_)
    (fun s hs => ⟨hs.owner_iff, hs.npc_mem⟩) as {} start_consistent
  · by_contra ha
    rw [step, if_neg ha] at ht
    exact Option.some_ne_none t ht.symm
  · rw [step, if_pos ha]
    exact act_spec hs a ha

end TibiaServer.Players.ShopWindows
