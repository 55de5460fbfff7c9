import TibiaServer.Game.Trade
import TibiaServer.Library.Run
/-!
# Trade sessions

Each of the two players names the other, the map of traded items holds exactly the items
that players offer, and each is counted once more than without the trade.  While two
players transfer their items (`E`) the map has let go of these already.
-/

namespace TibiaServer.Game

open TibiaServer.Cylinders
open TibiaServer.Library
open tradestate_t

namespace Trades

/-- The two players of a session name each other. -/
structure Paired (E : Set PlayerRef) (g : Trades) : Prop where
  other : ∀ p, (g.player p).tradePartner ≠ some p
  partner : ∀ p q, (g.player p).tradePartner = some q → (g.player q).tradePartner = some p
  idle : ∀ p ∉ E, (g.player p).tradeState = TRADE_NONE ↔
    (g.player p).tradePartner = none ∧ (g.player p).tradeItem = none
  busy : ∀ p, (g.player p).tradeState = TRADE_TRANSFER ↔ p ∈ E
  waiting : ∀ p, (g.player p).tradeState = TRADE_ACKNOWLEDGE → (g.player p).tradeItem = none
  within : ∀ p ∈ E, ∀ q, (g.player p).tradePartner = some q → q ∈ E

/-- The map holds what players offer, and counts it; `start` are the references that items had
before anybody traded. -/
structure Reserved (E : Set PlayerRef) (start : ItemRef → ℕ) (g : Trades) : Prop where
  offered : ∀ x p, (x, p) ∈ g.tradeItems ↔ p ∉ E ∧ (g.player p).tradeItem = some x
  nodup : g.keys.Nodup
  counted : ∀ x, g.referenceCounter x = start x + g.toReleaseItems.count x + g.keys.count x
  apart : ∀ x ∈ g.keys, ∀ y ∈ g.keys, ¬Above g.parent x y
  acyclic : ∀ x, ¬Above g.parent x x
  bounded : ∀ x y, g.parent x = some y → y < g.items

section Sessions

variable {E : Set PlayerRef} {start : ItemRef → ℕ} {g g' : Trades} {p q : PlayerRef}
  {x y item : ItemRef}

/-! ## Writes -/

@[simp] theorem player_setTrader (g : Trades) (p : PlayerRef) (trader : Trader) (r : PlayerRef) :
    (g.setTrader p trader).player r = if r = p then trader else g.player r :=
  Function.update_apply _ _ _ _

theorem player_release (g : Trades) (item : Option ItemRef) : (g.release item).player = g.player := by
  unfold release
  split
  · rfl
  · split <;> rfl

theorem mem_keys : x ∈ g.keys ↔ ∃ p, (x, p) ∈ g.tradeItems := by
  unfold keys
  simp

theorem Reserved.owner (hg : Reserved E start g) (hp : (x, p) ∈ g.tradeItems)
    (hq : (x, q) ∈ g.tradeItems) : p = q := by
  have heq := List.inj_on_of_nodup_map hg.nodup hp hq rfl
  exact (Prod.mk.inj heq).2

theorem Reserved.isHoldingItem_iff (hg : Reserved E start g) :
    g.isHoldingItem x y = true ↔ Above g.parent y x := by
  unfold isHoldingItem
  rw [decide_eq_true_iff]
  constructor
  · exact above_of_mem
  · intro habove
    have hnodes : ∀ a b, g.parent a = some b → b ∈ Finset.range g.items :=
      fun a b hab => Finset.mem_range.mpr (hg.bounded a b hab)
    exact mem_ancestors_of_above hg.acyclic hnodes (Finset.card_range g.items).le habove

/-- Only the offers of the players count. -/
theorem Reserved.congr (hg : Reserved E start g)
    (hplayer : ∀ r, (g'.player r).tradeItem = (g.player r).tradeItem)
    (htradeItems : g'.tradeItems = g.tradeItems)
    (hcounter : g'.referenceCounter = g.referenceCounter)
    (hrelease : g'.toReleaseItems = g.toReleaseItems) (hparent : g'.parent = g.parent)
    (hitems : g'.items = g.items) : Reserved E start g' where
  offered x p := by
    rw [htradeItems, hplayer]
    exact hg.offered x p
  nodup := by
    unfold keys
    rw [htradeItems]
    exact hg.nodup
  counted x := by
    unfold keys
    rw [htradeItems, hcounter, hrelease]
    exact hg.counted x
  apart := by
    unfold keys
    rw [htradeItems, hparent]
    exact hg.apart
  acyclic := hparent ▸ hg.acyclic
  bounded := by
    rw [hparent, hitems]
    exact hg.bounded

theorem Reserved.setTradeState (hg : Reserved E start g) (p : PlayerRef) (state : tradestate_t) :
    Reserved E start (g.setTradeState p state) := by
  have hplayer : ∀ r, ((g.setTradeState p state).player r).tradeItem = (g.player r).tradeItem := by
    intro r
    unfold Trades.setTradeState
    rw [player_setTrader]
    split
    next hr => rw [hr]
    next => rfl
  exact hg.congr hplayer rfl rfl rfl rfl rfl

theorem keys_filter (item : ItemRef) :
    (g.tradeItems.filter fun entry => entry.1 ≠ item).map Prod.fst =
      g.keys.filter fun x => x ≠ item := by
  unfold keys
  rw [List.filter_map]
  rfl

/-- The map lets go of what a player offers. -/
theorem Reserved.release (hg : Reserved E start g) (hp : p ∉ E) :
    Reserved (insert p E) start (g.release (g.player p).tradeItem) := by
  cases hitem : (g.player p).tradeItem with
  | none =>
    refine { hg with offered := fun x r => ?_ }
    show (x, r) ∈ g.tradeItems ↔ _ ∧ (g.player r).tradeItem = some x
    rw [hg.offered, Set.mem_insert_iff, not_or]
    constructor
    · rintro ⟨hr, hx⟩
      refine ⟨⟨?_, hr⟩, hx⟩
      rintro rfl
      exact nomatch hitem.symm.trans hx
    · rintro ⟨⟨-, hr⟩, hx⟩
      exact ⟨hr, hx⟩
  | some item =>
    have hmem : (item, p) ∈ g.tradeItems := (hg.offered item p).mpr ⟨hp, hitem⟩
    have hkey : item ∈ g.keys := mem_keys.mpr ⟨p, hmem⟩
    have hrelease : g.release (some item) =
        { g with
          tradeItems := g.tradeItems.filter fun entry => entry.1 ≠ item
          toReleaseItems := g.toReleaseItems ++ [item] } := if_pos hkey
    have hkeys : (g.release (some item)).keys = g.keys.filter fun x => x ≠ item := by
      rw [hrelease]
      exact keys_filter item
    have hsub : ∀ x ∈ (g.release (some item)).keys, x ∈ g.keys := by
      intro x hx
      rw [hkeys] at hx
      exact List.mem_of_mem_filter hx
    exact
      { offered := fun x r => by
          rw [hrelease]
          show (x, r) ∈ g.tradeItems.filter _ ↔ _ ∧ (g.player r).tradeItem = some x
          rw [List.mem_filter, hg.offered, Set.mem_insert_iff, not_or, decide_eq_true_iff]
          constructor
          · rintro ⟨⟨hr, hx⟩, hne⟩
            refine ⟨⟨?_, hr⟩, hx⟩
            rintro rfl
            exact hne (Option.some.inj (hx.symm.trans hitem))
          · rintro ⟨⟨hne, hr⟩, hx⟩
            refine ⟨⟨hr, hx⟩, ?_⟩
            rintro rfl
            exact hne (hg.owner ((hg.offered x r).mpr ⟨hr, hx⟩) hmem)
        nodup := by
          rw [hkeys]
          exact hg.nodup.filter _
        counted := fun x => by
          have hcount := hg.counted x
          rw [hkeys, hrelease]
          show g.referenceCounter x = start x + (g.toReleaseItems ++ [item]).count x + _
          rw [List.count_append]
          by_cases hx : x = item
          · subst hx
            have hone : g.keys.count x = 1 := List.count_eq_one_of_mem hg.nodup hkey
            have hnone : (g.keys.filter fun y => y ≠ x).count x = 0 := by
              apply List.count_eq_zero_of_not_mem
              simp
            rw [List.count_singleton_self]
            omega
          · have hsame : (g.keys.filter fun y => y ≠ item).count x = g.keys.count x :=
              List.count_filter (by simpa using hx)
            have hother : [item].count x = 0 := by
              apply List.count_eq_zero_of_not_mem
              simpa using hx
            omega
        apart := fun x hx y hy => by
          rw [show (g.release (some item)).parent = g.parent by rw [hrelease]]
          exact hg.apart x (hsub x hx) y (hsub y hy)
        acyclic := by
          rw [hrelease]
          exact hg.acyclic
        bounded := by
          rw [hrelease]
          exact hg.bounded }

theorem Reserved.setTrader (hg : Reserved (insert p E) start g) :
    Reserved E start (g.setTrader p {}) :=
  { hg with
    offered := fun x r => by
      show (x, r) ∈ g.tradeItems ↔ _
      rw [hg.offered, player_setTrader, Set.mem_insert_iff, not_or]
      by_cases hr : r = p
      · simp [hr]
      · simp [hr] }

theorem Reserved.cancel (hg : Reserved E start g) (hp : p ∉ E) : Reserved E start (g.cancel p) :=
  (hg.release hp).setTrader

theorem player_cancel (g : Trades) (p r : PlayerRef) :
    (g.cancel p).player r = if r = p then {} else g.player r := by
  unfold cancel
  rw [player_setTrader, player_release]

/-! ## The end of a session -/

/-- Whose trade is closed, and his partner's. -/
theorem internalCloseTrade_eq (hg : Paired E g) (hp : p ∉ E) : g.internalCloseTrade p =
    match (g.player p).tradePartner with
    | none => g.cancel p
    | some q => (g.cancel p).cancel q := by
  have hstate : (g.player p).tradeState ≠ TRADE_TRANSFER := fun h => hp ((hg.busy p).mp h)
  unfold internalCloseTrade
  cases hpartner : (g.player p).tradePartner with
  | none => simp [hstate]
  | some q =>
    have hq : (g.player q).tradeState ≠ TRADE_TRANSFER := by
      intro h
      exact hp (hg.within q ((hg.busy q).mp h) p (hg.partner p q hpartner))
    simp [hstate, hq]

theorem internalCloseTrade_of_mem (hg : Paired E g) (hp : p ∈ E) : g.internalCloseTrade p = g := by
  have hstate : (g.player p).tradeState = TRADE_TRANSFER := (hg.busy p).mpr hp
  unfold internalCloseTrade
  split
  · rw [if_pos hstate]
  · rw [if_pos (.inr hstate)]

theorem Paired.not_mem_of_partner (hg : Paired E g) (hp : p ∉ E)
    (hpartner : (g.player p).tradePartner = some q) : q ∉ E :=
  fun hq => hp (hg.within q hq p (hg.partner p q hpartner))

theorem Reserved.internalCloseTrade (hpaired : Paired E g) (hg : Reserved E start g)
    (p : PlayerRef) : Reserved E start (g.internalCloseTrade p) := by
  by_cases hp : p ∈ E
  · rwa [internalCloseTrade_of_mem hpaired hp]
  · rw [internalCloseTrade_eq hpaired hp]
    split
    · exact hg.cancel hp
    next q hpartner => exact (hg.cancel hp).cancel (hpaired.not_mem_of_partner hp hpartner)

/-- Whoever has lost his trade has lost it together with his partner. -/
theorem Paired.reset (hg : Paired E g) {E' : Set PlayerRef} (gone : Set PlayerRef)
    (hgone : ∀ r ∈ gone, g'.player r = {}) (hkept : ∀ r ∉ gone, g'.player r = g.player r)
    (hboth : ∀ r s, (g.player r).tradePartner = some s → r ∈ gone → s ∈ gone)
    (hE : ∀ r, r ∈ E' ↔ r ∈ E ∧ r ∉ gone) : Paired E' g' where
  other p := by
    by_cases hp : p ∈ gone
    · rw [hgone p hp]
      exact nofun
    · rw [hkept p hp]
      exact hg.other p
  partner p q := by
    intro hpq
    by_cases hp : p ∈ gone
    · rw [hgone p hp] at hpq
      exact nomatch hpq
    · rw [hkept p hp] at hpq
      have hqp := hg.partner p q hpq
      have hq : q ∉ gone := fun hq => hp (hboth q p hqp hq)
      rw [hkept q hq]
      exact hqp
  idle p hpE := by
    by_cases hp : p ∈ gone
    · simp [hgone p hp]
    · rw [hkept p hp]
      exact hg.idle p fun hmem => hpE ((hE p).mpr ⟨hmem, hp⟩)
  busy p := by
    rw [hE]
    by_cases hp : p ∈ gone
    · simp [hgone p hp, hp]
    · rw [hkept p hp, hg.busy]
      exact (and_iff_left hp).symm
  waiting p hstate := by
    by_cases hp : p ∈ gone
    · rw [hgone p hp]
    · rw [hkept p hp] at hstate ⊢
      exact hg.waiting p hstate
  within p hpE q hpq := by
    obtain ⟨hmem, hp⟩ := (hE p).mp hpE
    rw [hkept p hp] at hpq
    have hq : q ∉ gone := fun hq => hp (hboth q p (hg.partner p q hpq) hq)
    exact (hE q).mpr ⟨hg.within p hmem q hpq, hq⟩

theorem Paired.internalCloseTrade (hg : Paired E g) (p : PlayerRef) :
    Paired E (g.internalCloseTrade p) := by
  by_cases hp : p ∈ E
  · rwa [internalCloseTrade_of_mem hg hp]
  · rw [internalCloseTrade_eq hg hp]
    split
    next hpartner =>
      apply hg.reset {p}
      · rintro r rfl
        rw [player_cancel, if_pos rfl]
      · intro r hr
        have hne : r ≠ p := hr
        rw [player_cancel, if_neg hne]
      · rintro r s hrs rfl
        exact nomatch hpartner.symm.trans hrs
      · intro r
        refine ⟨fun hr => ⟨hr, fun heq => hp (heq ▸ hr)⟩, And.left⟩
    next q hpartner =>
      have hq := hg.not_mem_of_partner hp hpartner
      have hback := hg.partner p q hpartner
      apply hg.reset {p, q}
      · rintro r (rfl | rfl)
        · simp [player_cancel]
        · simp [player_cancel]
      · intro r hr
        have hne : r ≠ p ∧ r ≠ q := not_or.mp hr
        rw [player_cancel, if_neg hne.2, player_cancel, if_neg hne.1]
      · rintro r s hrs (rfl | rfl)
        · exact .inr (Option.some.inj (hrs.symm.trans hpartner))
        · exact .inl (Option.some.inj (hrs.symm.trans hback))
      · intro r
        refine ⟨fun hr => ⟨hr, ?_⟩, And.left⟩
        rintro (rfl | rfl)
        · exact hp hr
        · exact hq hr

/-- What holds between the requests. -/
structure Sessions (start : ItemRef → ℕ) (g : Trades) : Prop where
  paired : Paired ∅ g
  reserved : Reserved ∅ start g

theorem foldl_internalCloseTrade (closes : List PlayerRef) {g : Trades} (hpaired : Paired E g)
    (hg : Reserved E start g) : let g' := closes.foldl internalCloseTrade g
    Paired E g' ∧ Reserved E start g' := by
  induction closes generalizing g with
  | nil => exact ⟨hpaired, hg⟩
  | cons p closes ih => exact ih (hpaired.internalCloseTrade p) (hg.internalCloseTrade hpaired p)

theorem Sessions.internalCloseTrade (hg : Sessions start g) (p : PlayerRef) :
    Sessions start (g.internalCloseTrade p) :=
  ⟨hg.paired.internalCloseTrade p, hg.reserved.internalCloseTrade hg.paired p⟩

/-! ## The start of a session -/

theorem not_alreadyTraded (hg : Reserved E start g) (h : ¬g.alreadyTraded item)
    {y : ItemRef} (hy : y ∈ g.keys) :
    y ≠ item ∧ ¬Above g.parent y item ∧ ¬Above g.parent item y := by
  unfold alreadyTraded at h
  have hcheck : ¬((decide (item = y) || g.isHoldingItem item y || g.isHoldingItem y item) = true) :=
    fun hhit => h (List.any_eq_true.mpr ⟨y, hy, hhit⟩)
  rw [Bool.or_eq_true, Bool.or_eq_true, decide_eq_true_iff, hg.isHoldingItem_iff,
    hg.isHoldingItem_iff, not_or, not_or] at hcheck
  exact ⟨hcheck.1.1 ∘ Eq.symm, hcheck.1.2, hcheck.2⟩

/-- Nobody else names the two. -/
theorem Paired.stranger (hg : Paired E g) {r : PlayerRef}
    (hp : (g.player p).tradePartner = none ∨ (g.player p).tradePartner = some q)
    (hq : (g.player q).tradePartner = none ∨ (g.player q).tradePartner = some p)
    (hrp : r ≠ p) (hrq : r ≠ q) :
    (g.player r).tradePartner ≠ some p ∧ (g.player r).tradePartner ≠ some q := by
  constructor
  · intro hr
    have hback := hg.partner r p hr
    rcases hp with hnone | hsome
    · exact nomatch hnone.symm.trans hback
    · exact hrq (Option.some.inj (hback.symm.trans hsome))
  · intro hr
    have hback := hg.partner r q hr
    rcases hq with hnone | hsome
    · exact nomatch hnone.symm.trans hback
    · exact hrp (Option.some.inj (hback.symm.trans hsome))

/-- `p` has offered, and `q` if he knew nothing of it now waits. -/
theorem Paired.offer (hg : Paired ∅ g) (hpq : q ≠ p)
    (hp : (g.player p).tradePartner = none ∨ (g.player p).tradePartner = some q)
    (hq : (g.player q).tradePartner = none ∨ (g.player q).tradePartner = some p)
    (hp' : g'.player p = ⟨some q, some item, TRADE_INITIATED⟩)
    (hq' : g'.player q = ⟨some p, (g.player q).tradeItem,
      if (g.player q).tradeState = TRADE_NONE then TRADE_ACKNOWLEDGE else (g.player q).tradeState⟩)
    (hother : ∀ r, r ≠ p → r ≠ q → g'.player r = g.player r) : Paired ∅ g' := by
  have hstranger := fun r => hg.stranger hp hq (r := r)
  have hbusy : ∀ r, (g.player r).tradeState ≠ TRADE_TRANSFER := fun r h => ((hg.busy r).mp h)
  have hcases : ∀ r, r = p ∨ r = q ∨ r ≠ p ∧ r ≠ q := by
    intro r
    tauto
  exact
    { other := fun r => by
        rcases hcases r with rfl | rfl | ⟨hrp, hrq⟩
        · rw [hp']
          exact fun h => hpq (Option.some.inj h)
        · rw [hq']
          exact fun h => hpq (Option.some.inj h).symm
        · rw [hother r hrp hrq]
          exact hg.other r
      partner := fun r s hrs => by
        rcases hcases r with rfl | rfl | ⟨hrp, hrq⟩
        · rw [hp'] at hrs
          obtain rfl := Option.some.inj hrs
          rw [hq']
        · rw [hq'] at hrs
          obtain rfl := Option.some.inj hrs
          rw [hp']
        · rw [hother r hrp hrq] at hrs
          have hsp : s ≠ p := fun heq => (hstranger r hrp hrq).1 (heq ▸ hrs)
          have hsq : s ≠ q := fun heq => (hstranger r hrp hrq).2 (heq ▸ hrs)
          rw [hother s hsp hsq]
          exact hg.partner r s hrs
      idle := fun r hr => by
        rcases hcases r with rfl | rfl | ⟨hrp, hrq⟩
        · rw [hp']
          exact iff_of_false nofun nofun
        · rw [hq']
          apply iff_of_false _ nofun
          show (if _ then _ else _ : tradestate_t) ≠ _
          split
          · exact nofun
          · assumption
        · rw [hother r hrp hrq]
          exact hg.idle r hr
      busy := fun r => by
        apply iff_of_false _ (Set.notMem_empty r)
        rcases hcases r with rfl | rfl | ⟨hrp, hrq⟩
        · rw [hp']
          exact nofun
        · rw [hq']
          show (if _ then _ else _ : tradestate_t) ≠ _
          split
          · exact nofun
          · exact hbusy r
        · rw [hother r hrp hrq]
          exact hbusy r
      waiting := fun r hr => by
        rcases hcases r with rfl | rfl | ⟨hrp, hrq⟩
        · rw [hp'] at hr
          exact nomatch hr
        · rw [hq'] at hr ⊢
          by_cases hnone : (g.player r).tradeState = TRADE_NONE
          · exact ((hg.idle r (Set.notMem_empty r)).mp hnone).2
          · exact hg.waiting r ((if_neg hnone).symm.trans hr)
        · rw [hother r hrp hrq] at hr ⊢
          exact hg.waiting r hr
      within := fun r hr => absurd hr (Set.notMem_empty r) }

/-- The new offer is counted, and nothing that is traded is in it or around it. -/
theorem Reserved.offer (hg : Reserved ∅ start g) (hitem : ¬g.alreadyTraded item)
    (hp : (g.player p).tradeItem = none)
    (hplayer : ∀ r, (g'.player r).tradeItem = if r = p then some item else (g.player r).tradeItem)
    (htradeItems : g'.tradeItems =
      (item, p) :: g.tradeItems.filter fun entry => entry.1 ≠ item)
    (hcounter : g'.referenceCounter =
      Function.update g.referenceCounter item (g.referenceCounter item + 1))
    (hrelease : g'.toReleaseItems = g.toReleaseItems) (hparent : g'.parent = g.parent)
    (hitems : g'.items = g.items) : Reserved ∅ start g' := by
  have hfree : ∀ y ∈ g.keys, y ≠ item ∧ ¬Above g.parent y item ∧ ¬Above g.parent item y :=
    fun y hy => not_alreadyTraded hg hitem hy
  have hnew : item ∉ g.keys := fun hmem => (hfree item hmem).1 rfl
  have hfilter : (g.tradeItems.filter fun entry => entry.1 ≠ item) = g.tradeItems := by
    apply List.filter_eq_self.mpr
    rintro ⟨y, r⟩ hmem
    exact decide_eq_true (hfree y (mem_keys.mpr ⟨r, hmem⟩)).1
  rw [hfilter] at htradeItems
  have hkeys : g'.keys = item :: g.keys := by
    unfold keys
    rw [htradeItems, List.map_cons]
  exact
    { offered := fun x r => by
        rw [htradeItems, hplayer, List.mem_cons, Prod.mk.injEq]
        by_cases hr : r = p
        · subst hr
          have hold : (x, r) ∉ g.tradeItems := by
            intro hmem
            exact nomatch hp.symm.trans ((hg.offered x r).mp hmem).2
          simp [hold, eq_comm]
        · rw [if_neg hr]
          simpa [hr] using hg.offered x r
      nodup := by
        rw [hkeys]
        exact List.nodup_cons.mpr ⟨hnew, hg.nodup⟩
      counted := fun x => by
        have hcount := hg.counted x
        rw [hcounter, hkeys, hrelease, Function.update_apply]
        by_cases hx : x = item
        · subst hx
          rw [if_pos rfl, List.count_cons_self]
          omega
        · rw [if_neg hx, List.count_cons_of_ne (Ne.symm hx)]
          exact hcount
      apart := fun x hx y hy => by
        rw [hkeys, List.mem_cons] at hx hy
        rw [hparent]
        rcases hx with rfl | hx
        · rcases hy with rfl | hy
          · exact hg.acyclic _
          · exact (hfree y hy).2.2
        · rcases hy with rfl | hy
          · exact (hfree x hx).2.1
          · exact hg.apart x hx y hy
      acyclic := hparent ▸ hg.acyclic
      bounded := by
        rw [hparent, hitems]
        exact hg.bounded }

/-- A session that starts: who knows what, and the map. -/
structure Started (g g' : Trades) (p q : PlayerRef) (item : ItemRef) : Prop where
  player : g'.player p = ⟨some q, some item, TRADE_INITIATED⟩
  partner : g'.player q = ⟨some p, (g.player q).tradeItem,
    if (g.player q).tradeState = TRADE_NONE then TRADE_ACKNOWLEDGE else (g.player q).tradeState⟩
  other : ∀ r, r ≠ p → r ≠ q → g'.player r = g.player r
  tradeItems : g'.tradeItems = (item, p) :: g.tradeItems.filter fun entry => entry.1 ≠ item
  referenceCounter : g'.referenceCounter =
    Function.update g.referenceCounter item (g.referenceCounter item + 1)
  rest : g'.toReleaseItems = g.toReleaseItems ∧ g'.parent = g.parent ∧ g'.items = g.items ∧
    g'.online = g.online

/-- A request that is refused changes nothing. -/
theorem internalStartTrade_cases (g : Trades) (hpq : q ≠ p) (item : ItemRef) :
    (g.internalStartTrade p q item).2 = g ∨
      Started g (g.internalStartTrade p q item).2 p q item ∧
        ((g.player p).tradeState = TRADE_NONE ∨
          (g.player p).tradeState = TRADE_ACKNOWLEDGE ∧ (g.player p).tradePartner = some q) ∧
        ((g.player q).tradeState = TRADE_NONE ∨ (g.player q).tradePartner = some p) := by
  unfold Trades.internalStartTrade
  split
  · exact .inl rfl
  next hfree =>
    split
    · exact .inl rfl
    next hwilling =>
      refine .inr ⟨?_, by tauto, by tauto⟩
      have hsame : (g.setTrader p ⟨some q, some item, TRADE_INITIATED⟩).player q = g.player q := by
        rw [player_setTrader, if_neg hpq]
      simp only
      split
      next hnone =>
        replace hnone : (g.player q).tradeState = TRADE_NONE := hsame ▸ hnone
        exact
          { player := by simp [hpq.symm]
            partner := by simp [hnone, hpq]
            other := fun r hrp hrq => by simp [hrp, hrq]
            tradeItems := rfl
            referenceCounter := rfl
            rest := ⟨rfl, rfl, rfl, rfl⟩ }
      next hsome =>
        replace hsome : (g.player q).tradeState ≠ TRADE_NONE := hsame ▸ hsome
        have hpartner : (g.player q).tradePartner = some p := by tauto
        exact
          { player := by simp
            partner := by
              rw [if_neg hsome, ← hpartner]
              exact hsame
            other := fun r hrp _ => by simp [hrp]
            tradeItems := rfl
            referenceCounter := rfl
            rest := ⟨rfl, rfl, rfl, rfl⟩ }

theorem Sessions.internalStartTrade (hg : Sessions start g) (hpq : q ≠ p)
    (hitem : ¬g.alreadyTraded item) : Sessions start (g.internalStartTrade p q item).2 := by
  rcases internalStartTrade_cases g hpq item with hsame | ⟨hstarted, hfree, hwilling⟩
  · rwa [hsame]
  · have hidle := fun r => hg.paired.idle r (Set.notMem_empty r)
    have hp : (g.player p).tradePartner = none ∨ (g.player p).tradePartner = some q :=
      hfree.imp (fun h => ((hidle p).mp h).1) And.right
    have hq : (g.player q).tradePartner = none ∨ (g.player q).tradePartner = some p :=
      hwilling.imp_left fun h => ((hidle q).mp h).1
    have hitem' : (g.player p).tradeItem = none := by
      rcases hfree with hnone | ⟨hwaiting, -⟩
      · exact ((hidle p).mp hnone).2
      · exact hg.paired.waiting p hwaiting
    obtain ⟨hrelease, hparent, hitems, -⟩ := hstarted.rest
    constructor
    · exact hg.paired.offer hpq hp hq hstarted.player hstarted.partner hstarted.other
    · apply hg.reserved.offer hitem hitem' _ hstarted.tradeItems hstarted.referenceCounter hrelease
        hparent hitems
      intro r
      by_cases hrp : r = p
      · rw [hrp, hstarted.player, if_pos rfl]
      · rw [if_neg hrp]
        by_cases hrq : r = q
        · rw [hrq, hstarted.partner]
        · rw [hstarted.other r hrp hrq]

theorem requestedItem_spec {view : RequestView} (h : g.requestedItem p q view = some item) :
    q ≠ p ∧ ¬g.alreadyTraded item := by
  unfold requestedItem at h
  split at h
  · exact nomatch h
  split at h
  · exact nomatch h
  next hpartner =>
    split at h
    · exact nomatch h
    split at h
    · exact nomatch h
    split at h
    · exact nomatch h
    next tradeItem _ =>
      split at h
      · exact nomatch h
      split at h
      · exact nomatch h
      split at h
      · exact nomatch h
      split at h
      · exact nomatch h
      next hfree =>
        split at h
        · exact nomatch h
        split at h
        · exact nomatch h
        · obtain rfl := Option.some.inj h
          exact ⟨fun heq => hpartner (.inr heq), hfree⟩

theorem Sessions.playerRequestTrade (hg : Sessions start g) (p q : PlayerRef)
    (view : RequestView) : Sessions start (g.playerRequestTrade p q view) := by
  unfold Trades.playerRequestTrade
  split
  · exact hg
  next item hitem =>
    obtain ⟨hpq, hfree⟩ := requestedItem_spec hitem
    exact hg.internalStartTrade hpq hfree

/-! ## Transfers -/

theorem parent_setParent_cases {place : Option ItemRef}
    (h : (g.setParent item place).parent x = some y) :
    g.parent x = some y ∨ x = item ∧ place = some y := by
  replace h : Function.update g.parent item place x = some y := h
  rw [Function.update_apply] at h
  split at h
  next hx => exact .inr ⟨hx, h⟩
  next => exact .inl h

theorem Reserved.not_within_of_fits (hg : Reserved E start g) {container : ItemRef}
    (hfits : g.fits item (some container) = true) : container < g.items ∧
      ¬Relation.ReflTransGen (fun a b => g.parent a = some b) container item := by
  have hcheck : (container < g.items ∧ container ≠ item) ∧
      ¬g.isHoldingItem item container = true := by
    simpa [fits] using hfits
  rw [hg.isHoldingItem_iff] at hcheck
  refine ⟨hcheck.1.1, fun hpath => ?_⟩
  rcases Relation.reflTransGen_iff_eq_or_transGen.mp hpath with heq | habove
  · exact hcheck.1.2 heq.symm
  · exact hcheck.2 habove

/-- What comes to stand above `x` does so through the item that is put elsewhere. -/
theorem Reserved.above_setParent (hg : Reserved E start g) {place : Option ItemRef}
    (hfits : g.fits item place = true) (h : Above (g.setParent item place).parent x y) :
    Above g.parent x y ∨ x = item ∨ Above g.parent x item := by
  cases place with
  | none =>
    refine .inl (Relation.TransGen.mono (fun a b hab => ?_) x y h)
    rcases parent_setParent_cases hab with hab | ⟨-, hnone⟩
    · exact hab
    · exact nomatch hnone
  | some container =>
    have hedge : ∀ a b, (g.setParent item (some container)).parent a = some b →
        g.parent a = some b ∨ a = item ∧ b = container :=
      fun a b hab => (parent_setParent_cases hab).imp_right fun h =>
        ⟨h.1, (Option.some.inj h.2).symm⟩
    rcases transGen_of_edge hedge h (hg.not_within_of_fits hfits).2 with hold | ⟨hup, -⟩
    · exact .inl hold
    · exact .inr ((Relation.reflTransGen_iff_eq_or_transGen.mp hup).imp_left Eq.symm)

theorem Reserved.acyclic_setParent (hg : Reserved E start g) {place : Option ItemRef}
    (hfits : g.fits item place = true) (x : ItemRef) :
    ¬Above (g.setParent item place).parent x x := by
  cases place with
  | none =>
    intro hcycle
    refine hg.acyclic x (Relation.TransGen.mono (fun a b hab => ?_) x x hcycle)
    rcases parent_setParent_cases hab with hab | ⟨-, hnone⟩
    · exact hab
    · exact nomatch hnone
  | some container =>
    apply not_transGen_of_edge hg.acyclic (hg.not_within_of_fits hfits).2
    exact fun a b hab => (parent_setParent_cases hab).imp_right fun h =>
      ⟨h.1, (Option.some.inj h.2).symm⟩

/-- An item that is no longer traded, and that nothing traded is in. -/
structure Free (g : Trades) (item : ItemRef) : Prop where
  released : item ∉ g.keys
  holds : ∀ x ∈ g.keys, ¬Above g.parent x item

theorem Free.setParent (hg : Reserved E start g) {place : Option ItemRef} (hitem : g.Free item)
    (hfits : g.fits item place = true) {other : ItemRef} (hother : g.Free other) :
    (g.setParent item place).Free other where
  released := hother.released
  holds x hx habove := by
    rcases hg.above_setParent hfits habove with hold | heq | hin
    · exact hother.holds x hx hold
    · exact hitem.released (heq ▸ hx)
    · exact hitem.holds x hx hin

/-- Whatever is traded stays where it is. -/
theorem Reserved.setParent (hg : Reserved E start g) {place : Option ItemRef}
    (hitem : g.Free item) (hfits : g.fits item place = true) :
    Reserved E start (g.setParent item place) :=
  { hg with
    apart := fun x hx y hy habove => by
      rcases hg.above_setParent hfits habove with hold | heq | hin
      · exact hg.apart x hx y hy hold
      · exact hitem.released (heq ▸ hx)
      · exact hitem.holds x hx hin
    acyclic := hg.acyclic_setParent hfits
    bounded := fun x y hxy => by
      rcases parent_setParent_cases hxy with hxy | ⟨-, rfl⟩
      · exact hg.bounded x y hxy
      · exact (hg.not_within_of_fits hfits).1 }

theorem Paired.transfer (hpaired : Paired E g) (hg : Reserved E start g)
    {tradeItem1 tradeItem2 : Option ItemRef} (h1 : ∀ item ∈ tradeItem1, g.Free item)
    (h2 : ∀ item ∈ tradeItem2, g.Free item) (view : TransferView) :
    let g' := (g.transfer tradeItem1 tradeItem2 view).2
    Paired E g' ∧ Reserved E start g' := by
  unfold Trades.transfer
  split
  next item1 item2 =>
    split
    · exact ⟨hpaired, hg⟩
    split
    · exact ⟨hpaired, hg⟩
    next hmoves =>
      have hfits : g.fits item1 view.place1 = true := by
        have hboth : view.moves1 = true ∧ g.fits item1 view.place1 = true := by
          simpa using hmoves
        exact hboth.2
      have hmoved := hg.setParent (h1 item1 rfl) hfits
      have hfree := (h1 item1 rfl).setParent hg hfits (h2 item2 rfl)
      have hpaired1 : Paired E (g.setParent item1 view.place1) := { hpaired with }
      apply foldl_internalCloseTrade
      · split
        · exact { hpaired with }
        · exact hpaired1
      · split
        next hmoves2 => exact hmoved.setParent hfree (Bool.and_eq_true_iff.mp hmoves2).2
        next => exact hmoved
  next => exact ⟨hpaired, hg⟩

theorem mem_keys_release (item : Option ItemRef) :
    x ∈ (g.release item).keys ↔ x ∈ g.keys ∧ item ≠ some x := by
  unfold release
  cases item with
  | none => simp
  | some item =>
    by_cases hmem : item ∈ g.keys
    · have hkeys := keys_filter (g := g) item
      simp only [if_pos hmem]
      unfold keys at hkeys ⊢
      rw [hkeys, List.mem_filter, decide_eq_true_iff]
      simp [eq_comm]
    · simp only [if_neg hmem]
      constructor
      · intro hx
        exact ⟨hx, fun heq => hmem (Option.some.inj heq ▸ hx)⟩
      · exact And.left

theorem parent_release (item : Option ItemRef) : (g.release item).parent = g.parent := by
  unfold release
  split
  · rfl
  · split <;> rfl

theorem Free.of_release (hg : Reserved E start g) (hitem : item ∈ g.keys) :
    (g.release (some item)).Free item where
  released hmem := ((mem_keys_release _).mp hmem).2 rfl
  holds x hx := by
    rw [parent_release]
    exact hg.apart x ((mem_keys_release _).mp hx).1 item hitem

theorem Free.release (hitem : g.Free item) (other : Option ItemRef) :
    (g.release other).Free item where
  released hmem := hitem.released ((mem_keys_release _).mp hmem).1
  holds x hx := by
    rw [parent_release]
    exact hitem.holds x ((mem_keys_release _).mp hx).1

/-- Both players hold on to their session while the items are transferred. -/
theorem Paired.transferring (hg : Paired ∅ g) (hpartner : (g.player p).tradePartner = some q)
    (hp : g'.player p = { g.player p with tradeState := TRADE_TRANSFER })
    (hq : g'.player q = { g.player q with tradeState := TRADE_TRANSFER })
    (hother : ∀ r, r ≠ p → r ≠ q → g'.player r = g.player r) : Paired {p, q} g' := by
  have hback := hg.partner p q hpartner
  have hsame : ∀ r, (g'.player r).tradePartner = (g.player r).tradePartner := by
    intro r
    by_cases hrp : r = p
    · rw [hrp, hp]
    · by_cases hrq : r = q
      · rw [hrq, hq]
      · rw [hother r hrp hrq]
  have hout : ∀ r, r ∉ ({p, q} : Set PlayerRef) → g'.player r = g.player r := by
    intro r hr
    have hne : r ≠ p ∧ r ≠ q := not_or.mp hr
    exact hother r hne.1 hne.2
  have hin : ∀ r ∈ ({p, q} : Set PlayerRef), (g'.player r).tradeState = TRADE_TRANSFER := by
    rintro r (rfl | rfl)
    · rw [hp]
    · rw [hq]
  exact
    { other := fun r => by
        rw [hsame]
        exact hg.other r
      partner := fun r s => by
        rw [hsame, hsame]
        exact hg.partner r s
      idle := fun r hr => by
        rw [hout r hr]
        exact hg.idle r (Set.notMem_empty r)
      busy := fun r => by
        by_cases hr : r ∈ ({p, q} : Set PlayerRef)
        · exact iff_of_true (hin r hr) hr
        · rw [hout r hr]
          exact iff_of_false (fun h => (hg.busy r).mp h) hr
      waiting := fun r hstate => by
        by_cases hr : r ∈ ({p, q} : Set PlayerRef)
        · exact nomatch (hin r hr).symm.trans hstate
        · rw [hout r hr] at hstate ⊢
          exact hg.waiting r hstate
      within := fun r hr s hrs => by
        rw [hsame] at hrs
        rcases hr with rfl | rfl
        · exact .inr (Option.some.inj (hrs.symm.trans hpartner))
        · exact .inl (Option.some.inj (hrs.symm.trans hback)) }

theorem Sessions.acceptBoth (hg : Sessions start g)
    (hpartner : (g.player p).tradePartner = some q) (view : TransferView) :
    Sessions start (g.acceptBoth p q view).trades := by
  have hne : q ≠ p := fun heq => hg.paired.other p (heq ▸ hpartner)
  have hitems : ∀ r item, (g.player r).tradeItem = some item → item ∈ g.keys := by
    intro r item hitem
    exact mem_keys.mpr ⟨r, (hg.reserved.offered item r).mpr ⟨Set.notMem_empty r, hitem⟩⟩
  let g1 := (g.setTradeState p TRADE_TRANSFER).setTradeState q TRADE_TRANSFER
  have hstates : Reserved ∅ start g1 :=
    (hg.reserved.setTradeState p TRADE_TRANSFER).setTradeState q TRADE_TRANSFER
  have hitem1 : (g1.player p).tradeItem = (g.player p).tradeItem := by
    simp [g1, Trades.setTradeState, hne.symm]
  have hitem2 : (g1.player q).tradeItem = (g.player q).tradeItem := by
    simp [g1, Trades.setTradeState, hne]
  have hpaired1 : Paired {p, q} g1 := by
    apply hg.paired.transferring hpartner
    · simp [g1, Trades.setTradeState, hne.symm]
    · simp [g1, Trades.setTradeState, hne]
    · intro r hrp hrq
      simp [g1, Trades.setTradeState, hrp, hrq]
  let g2 := g1.release (g.player p).tradeItem
  have hreserved2 : Reserved {p} start g2 := by
    have hrelease := hstates.release (Set.notMem_empty p)
    rwa [hitem1, insert_empty_eq] at hrelease
  have hitem2' : (g2.player q).tradeItem = (g.player q).tradeItem := by
    show ((g1.release _).player q).tradeItem = _
    rw [player_release, hitem2]
  let g3 := g2.release (g.player q).tradeItem
  have hreserved3 : Reserved {q, p} start g3 := by
    have hrelease := hreserved2.release (p := q) (fun h => hne h)
    rwa [hitem2'] at hrelease
  have hpaired3 : Paired {p, q} g3 := by
    have hplayer : g3.player = g1.player := by
      show ((g1.release _).release _).player = _
      rw [player_release, player_release]
    exact
      { other := hplayer ▸ hpaired1.other
        partner := hplayer ▸ hpaired1.partner
        idle := hplayer ▸ hpaired1.idle
        busy := hplayer ▸ hpaired1.busy
        waiting := hplayer ▸ hpaired1.waiting
        within := hplayer ▸ hpaired1.within }
  have hfree1 : ∀ item ∈ (g.player p).tradeItem, g3.Free item := by
    intro item hitem
    have hfree : (g1.release (some item)).Free item := .of_release hstates (hitems p item hitem)
    show ((g1.release (g.player p).tradeItem).release _).Free item
    rw [show (g.player p).tradeItem = some item from hitem]
    exact hfree.release _
  have hfree2 : ∀ item ∈ (g.player q).tradeItem, g3.Free item := by
    intro item hitem
    have hkey : item ∈ g2.keys := by
      apply mem_keys.mpr
      exact ⟨q, (hreserved2.offered item q).mpr ⟨fun h => hne h, hitem2'.trans hitem⟩⟩
    have hfree : (g2.release (some item)).Free item := .of_release hreserved2 hkey
    show (g2.release (g.player q).tradeItem).Free item
    rwa [show (g.player q).tradeItem = some item from hitem]
  obtain ⟨hpaired4, hreserved4⟩ := hpaired3.transfer (Set.pair_comm p q ▸ hreserved3) hfree1 hfree2
    view
  show Sessions start (((g3.transfer (g.player p).tradeItem (g.player q).tradeItem view).2.setTrader
    p {}).setTrader q {})
  constructor
  · apply hpaired4.reset {p, q}
    · rintro r (rfl | rfl)
      · simp
      · simp
    · intro r hr
      have hout : r ≠ p ∧ r ≠ q := not_or.mp hr
      simp [hout.1, hout.2]
    · exact fun r s hrs hr => hpaired4.within r hr s hrs
    · exact fun r => iff_of_false (Set.notMem_empty r) fun h => h.2 h.1
  · have hlast : Reserved (insert q ∅) start
        ((g3.transfer (g.player p).tradeItem (g.player q).tradeItem view).2.setTrader p {}) := by
      rw [insert_empty_eq]
      exact hreserved4.setTrader
    exact hlast.setTrader

theorem Sessions.setTradeState (hg : Sessions start g) {state : tradestate_t}
    (hsome : (g.player p).tradeState ≠ TRADE_NONE) (hstate : state ≠ TRADE_NONE)
    (htransfer : state ≠ TRADE_TRANSFER) (hwaiting : state ≠ TRADE_ACKNOWLEDGE) :
    Sessions start (g.setTradeState p state) := by
  refine ⟨?_, hg.reserved.setTradeState p state⟩
  have hsame : ∀ r, ((g.setTradeState p state).player r).tradePartner =
      (g.player r).tradePartner := by
    intro r
    unfold Trades.setTradeState
    rw [player_setTrader]
    split
    next hr => rw [hr]
    next => rfl
  have hp : (g.setTradeState p state).player p = { g.player p with tradeState := state } := by
    simp [Trades.setTradeState]
  have hother : ∀ r, r ≠ p → (g.setTradeState p state).player r = g.player r := by
    intro r hr
    simp [Trades.setTradeState, hr]
  exact
    { other := fun r => by
        rw [hsame]
        exact hg.paired.other r
      partner := fun r s => by
        rw [hsame, hsame]
        exact hg.paired.partner r s
      idle := fun r hr => by
        by_cases hrp : r = p
        · subst hrp
          rw [hp]
          exact iff_of_false hstate fun h => hsome ((hg.paired.idle r hr).mpr h)
        · rw [hother r hrp]
          exact hg.paired.idle r hr
      busy := fun r => by
        by_cases hrp : r = p
        · subst hrp
          rw [hp]
          exact iff_of_false htransfer (Set.notMem_empty r)
        · rw [hother r hrp]
          exact hg.paired.busy r
      waiting := fun r => by
        by_cases hrp : r = p
        · subst hrp
          rw [hp]
          exact fun h => absurd h hwaiting
        · rw [hother r hrp]
          exact hg.paired.waiting r
      within := fun r hr => absurd hr (Set.notMem_empty r) }

/-! ## Requests -/

theorem Sessions.playerAcceptTrade (hg : Sessions start g) (p : PlayerRef)
    (canThrowObjectTo onTradeAccept : Bool) (view : TransferView) :
    Sessions start (g.playerAcceptTrade p canThrowObjectTo onTradeAccept view).trades := by
  unfold Trades.playerAcceptTrade
  split
  · exact hg
  split
  · exact hg
  next hstate =>
    split
    · exact hg
    next q hpartner =>
      split
      · exact hg
      · have hsome : (g.player p).tradeState ≠ TRADE_NONE := by
          intro hnone
          rw [hnone] at hstate
          exact hstate (by simp)
        have haccepted : Sessions start (g.setTradeState p TRADE_ACCEPT) :=
          hg.setTradeState hsome nofun nofun nofun
        simp only
        split
        · exact haccepted
        split
        · exact haccepted.internalCloseTrade p
        · apply haccepted.acceptBoth
          simpa [Trades.setTradeState] using hpartner

theorem Sessions.cleanup (hg : Sessions start g) : Sessions start g.cleanup := by
  refine ⟨{ hg.paired with }, { hg.reserved with counted := fun x => ?_ }⟩
  have hcount := hg.reserved.counted x
  show g.referenceCounter x - g.toReleaseItems.count x = start x + [].count x + g.keys.count x
  rw [List.count_nil]
  omega

theorem Sessions.setOnline (hg : Sessions start g) (online : PlayerRef → Bool) :
    Sessions start { g with online := online } :=
  ⟨{ hg.paired with }, { hg.reserved with }⟩

theorem Sessions.step (hg : Sessions start g) {action : TradeAction}
    (h : action.step g = some g') : Sessions start g' := by
  cases action with
  | request player tradePlayer view =>
    exact Option.some.inj h ▸ hg.playerRequestTrade player tradePlayer view
  | accept player canThrowObjectTo onTradeAccept view =>
    exact Option.some.inj h ▸ hg.playerAcceptTrade player canThrowObjectTo onTradeAccept view
  | close player =>
    obtain rfl : g.playerCloseTrade player = g' := Option.some.inj h
    unfold playerCloseTrade
    split
    · exact hg
    · exact hg.internalCloseTrade player
  | logout player =>
    obtain rfl : g.logout player = g' := Option.some.inj h
    unfold logout
    split
    · exact hg
    · apply Sessions.setOnline
      split
      · exact hg.internalCloseTrade player
      · exact hg
  | login player => exact Option.some.inj h ▸ hg.setOnline _
  | cleanup => exact Option.some.inj h ▸ hg.cleanup

end Sessions

/-! ## Runs -/

/-- The references to an item that are not held by the map of traded items: those that it had
before anybody traded, and those that have been given back and not yet been dropped. -/
def unreserved (start : ItemRef → ℕ) (g : Trades) (item : ItemRef) : ℕ :=
  start item + g.toReleaseItems.count item

structure Agreed (start : ItemRef → ℕ) (g : Trades) : Prop where
  partner : ∀ p q, (g.player p).tradePartner = some q ↔ (g.player q).tradePartner = some p
  idle : ∀ p, (g.player p).tradeState = TRADE_NONE ↔
    (g.player p).tradePartner = none ∧ (g.player p).tradeItem = none
  offered : ∀ x p, (x, p) ∈ g.tradeItems ↔ (g.player p).tradeItem = some x
  owner : ∀ x p q, (g.player p).tradeItem = some x → (g.player q).tradeItem = some x → p = q
  counted : ∀ x p, (g.player p).tradeItem = some x →
    g.referenceCounter x = g.unreserved start x + 1
  apart : ∀ x y p q, (g.player p).tradeItem = some x → (g.player q).tradeItem = some y →
    ¬Above g.parent x y

/-- Nobody trades, and no item is inside itself. -/
structure Quiet (g : Trades) : Prop where
  player : ∀ p, g.player p = {}
  tradeItems : g.tradeItems = []
  toReleaseItems : g.toReleaseItems = []
  acyclic : ∀ x, ¬Above g.parent x x
  bounded : ∀ x y, g.parent x = some y → y < g.items

theorem Quiet.sessions {g : Trades} (hg : g.Quiet) : Sessions g.referenceCounter g where
  paired :=
    { other := fun p => by simp [hg.player]
      partner := fun p q => by simp [hg.player]
      idle := fun p _ => by simp [hg.player]
      busy := fun p => by simp [hg.player]
      waiting := fun p => by simp [hg.player]
      within := fun p hp => absurd hp (Set.notMem_empty p) }
  reserved :=
    { offered := fun x p => by simp [hg.player, hg.tradeItems]
      nodup := by simp [keys, hg.tradeItems]
      counted := fun x => by simp [keys, hg.tradeItems, hg.toReleaseItems]
      apart := by simp [keys, hg.tradeItems]
      acyclic := hg.acyclic
      bounded := hg.bounded }

theorem Sessions.agreed {start : ItemRef → ℕ} {g : Trades} (hg : Sessions start g) :
    g.Agreed start := by
  have hoffered : ∀ x p, (x, p) ∈ g.tradeItems ↔ (g.player p).tradeItem = some x := by
    intro x p
    rw [hg.reserved.offered]
    exact and_iff_right (Set.notMem_empty p)
  have hkeys : ∀ x p, (g.player p).tradeItem = some x → x ∈ g.keys :=
    fun x p hx => mem_keys.mpr ⟨p, (hoffered x p).mpr hx⟩
  exact
    { partner := fun p q => ⟨hg.paired.partner p q, hg.paired.partner q p⟩
      idle := fun p => hg.paired.idle p (Set.notMem_empty p)
      offered := hoffered
      owner := fun x p q hp hq =>
        hg.reserved.owner ((hoffered x p).mpr hp) ((hoffered x q).mpr hq)
      counted := fun x p hx => by
        rw [hg.reserved.counted x, List.count_eq_one_of_mem hg.reserved.nodup (hkeys x p hx)]
        rfl
      apart := fun x y p q hx hy => hg.reserved.apart x (hkeys x p hx) y (hkeys y q hy) }

/-- Over every sequence of requests, logouts and what happens in between, the sessions of all
players agree with the map of traded items and with the counts of references. -/
theorem always_agreed {g : Trades} (hg : g.Quiet) (actions : List TradeAction) :
    Run.Always TradeAction.step (Agreed g.referenceCounter) g actions :=
  Run.always_of_invariant (I := Sessions g.referenceCounter) (fun _ _ _ hs h => hs.step h)
    (fun _ hs => hs.agreed) actions g hg.sessions

/-- A bag and what is in it are offered, and the trade is called off. -/
theorem always_agreed_bag : Run.Always TradeAction.step (Agreed fun _ => 1)
    { parent := fun x => if x = 1 then some 0 else none, items := 1 }
    [.request 1 2 { tradeThing := some 0 }, .request 2 1 { tradeThing := some 1 }, .logout 2] := by
  have hparent : ∀ x y, (if x = 1 then some 0 else none : Option ItemRef) = some y →
      x = 1 ∧ y = 0 := by
    intro x y h
    split at h
    next hx => exact ⟨hx, (Option.some.inj h).symm⟩
    next => exact nomatch h
  apply always_agreed (g := { parent := fun x => if x = 1 then some 0 else none, items := 1 })
  exact
    { player := fun _ => rfl
      tradeItems := rfl
      toReleaseItems := rfl
      acyclic := fun x hx => by
        obtain ⟨y, hy, hyx⟩ := Relation.TransGen.head'_iff.mp hx
        obtain ⟨rfl, rfl⟩ := hparent x y hy
        rcases Relation.ReflTransGen.cases_head hyx with heq | ⟨z, hz, -⟩
        · exact nomatch heq
        · exact nomatch (hparent 0 z hz).1
      bounded := fun x y hxy => by
        obtain ⟨-, rfl⟩ := hparent x y hxy
        exact Nat.zero_lt_one }

end Trades

end TibiaServer.Game
