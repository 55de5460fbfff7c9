import TibiaServer.Game.TradeSessions
/-!
# What is accepted and what is transferred

Beside the trades stand the offers that each player has accepted and what has been
transferred.  A player may accept as soon as he has offered himself, and his partner may still
answer with an offer that he has not seen.
-/

namespace TibiaServer.Game

open TibiaServer.Cylinders
open TibiaServer.Library
open tradestate_t

/-- A player's own item and his partner's. -/
abbrev Offer := Option ItemRef × Option ItemRef

/-- The items of the player whose request has led to the transfer and of his partner, and what
each of the two had before him when his own request to accept was processed. -/
structure Transferred where
  items : ItemRef × ItemRef
  accepted : Offer
  partnerAccepted : Offer

def Transferred.Seen (transferred : Transferred) : Prop :=
  transferred.accepted = (some transferred.items.1, some transferred.items.2) ∧
    transferred.partnerAccepted = (some transferred.items.2, some transferred.items.1)

structure Watched where
  trades : Trades
  accepted : PlayerRef → Offer := fun _ => (none, none)
  transfers : List Transferred := []

namespace Trades

variable (g : Trades)

def partnerItem (p : PlayerRef) : Option ItemRef :=
  (g.player p).tradePartner.bind fun q => (g.player q).tradeItem

def offer (p : PlayerRef) : Offer := ((g.player p).tradeItem, g.partnerItem p)

/-- The request to accept is not refused. -/
def accepts (p : PlayerRef) (canThrowObjectTo : Bool) : Bool :=
  g.online p && ((g.player p).tradeState = TRADE_ACKNOWLEDGE ||
    (g.player p).tradeState = TRADE_INITIATED) && (g.player p).tradePartner.isSome &&
      canThrowObjectTo

end Trades

namespace Watched

variable (w : Watched)

def accept (p : PlayerRef) (canThrowObjectTo onTradeAccept : Bool) (view : Trades.TransferView) :
    Watched :=
  let result := w.trades.playerAcceptTrade p canThrowObjectTo onTradeAccept view
  { trades := result.trades
    accepted :=
      if w.trades.accepts p canThrowObjectTo then
        Function.update w.accepted p (w.trades.offer p)
      else w.accepted
    transfers :=
      match result.transferred, (w.trades.player p).tradePartner with
      | some items, some partner =>
        { items := items, accepted := w.trades.offer p, partnerAccepted := w.accepted partner } ::
          w.transfers
      | _, _ => w.transfers }

def step (w : Watched) : TradeAction → Option Watched
  | .accept p canThrowObjectTo onTradeAccept view =>
    some (w.accept p canThrowObjectTo onTradeAccept view)
  | action => (action.step w.trades).map fun trades => { w with trades := trades }

/-- Every transfer was accepted as it was by both. -/
def Seen (w : Watched) : Prop := ∀ transferred ∈ w.transfers, transferred.Seen

/-- Nobody answers with an offer to a partner who has accepted already. -/
def OffersFirst (w : Watched) : TradeAction → Prop
  | .request p q view => (w.trades.requestedItem p q view).isSome →
      (w.trades.player p).tradeState = TRADE_ACKNOWLEDGE →
        (w.trades.player p).tradePartner = some q → (w.trades.player q).tradeState ≠ TRADE_ACCEPT
  | _ => True

end Watched

namespace Trades

section Cleared

variable {E : Set PlayerRef} {start : ItemRef → ℕ} {g g' g'' : Trades} {p q r : PlayerRef}
  {item : ItemRef}

/-- Trades can only have been closed. -/
def Cleared (g g' : Trades) : Prop := ∀ r, g'.player r = {} ∨ g'.player r = g.player r

theorem Cleared.refl (g : Trades) : Cleared g g := fun _ => .inr rfl

theorem Cleared.trans (h : Cleared g g') (h' : Cleared g' g'') : Cleared g g'' := by
  intro r
  rcases h' r with hnone | hsame
  · exact .inl hnone
  · rw [hsame]
    exact h r

theorem cleared_cancel (g : Trades) (p : PlayerRef) : Cleared g (g.cancel p) := by
  intro r
  rw [player_cancel]
  split
  · exact .inl rfl
  · exact .inr rfl

theorem cleared_internalCloseTrade (g : Trades) (p : PlayerRef) :
    Cleared g (g.internalCloseTrade p) := by
  unfold internalCloseTrade
  split
  · split
    · exact Cleared.refl g
    · exact cleared_cancel g p
  · split
    · exact Cleared.refl g
    · exact (cleared_cancel g p).trans (cleared_cancel _ _)

theorem cleared_foldl (closes : List PlayerRef) (g : Trades) :
    Cleared g (closes.foldl internalCloseTrade g) := by
  induction closes generalizing g with
  | nil => exact Cleared.refl g
  | cons p closes ih => exact (cleared_internalCloseTrade g p).trans (ih _)

theorem cleared_transfer (g : Trades) (tradeItem1 tradeItem2 : Option ItemRef)
    (view : TransferView) : Cleared g (g.transfer tradeItem1 tradeItem2 view).2 := by
  unfold transfer
  split
  next item1 item2 =>
    split
    · exact Cleared.refl g
    split
    · exact Cleared.refl g
    · have hmoved : Cleared g (if view.moves2 && (g.setParent item1 view.place1).fits item2
          view.place2 then (g.setParent item1 view.place1).setParent item2 view.place2
          else g.setParent item1 view.place1) := by
        split
        · exact fun _ => .inr rfl
        · exact fun _ => .inr rfl
      exact hmoved.trans (cleared_foldl view.closes _)
  next => exact Cleared.refl g

theorem cleared_acceptBoth (g : Trades) (p q : PlayerRef) (view : TransferView) :
    Cleared g (g.acceptBoth p q view).trades := by
  intro r
  unfold acceptBoth
  simp only [player_setTrader]
  by_cases hrq : r = q
  · exact .inl (if_pos hrq)
  by_cases hrp : r = p
  · rw [if_neg hrq]
    exact .inl (if_pos hrp)
  rw [if_neg hrq, if_neg hrp]
  refine (cleared_transfer _ _ _ view r).imp_right fun hsame => ?_
  rw [hsame, player_release, player_release]
  simp [setTradeState, hrp, hrq]

theorem transferred_acceptBoth {view : TransferView} {items : ItemRef × ItemRef}
    (h : (g.acceptBoth p q view).transferred = some items) :
    (g.player p).tradeItem = some items.1 ∧ (g.player q).tradeItem = some items.2 := by
  unfold acceptBoth at h
  simp only at h
  split at h
  · obtain ⟨item1, hitem1, hrest⟩ := Option.bind_eq_some_iff.mp h
    obtain ⟨item2, hitem2, rfl⟩ := Option.map_eq_some_iff.mp hrest
    exact ⟨hitem1, hitem2⟩
  · exact nomatch h

/-- Who still has a trade still has his partner. -/
theorem offer_of_cleared (h : Cleared g g') (hg : Paired ∅ g')
    (hr : (g'.player r).tradeState ≠ TRADE_NONE) :
    g'.player r = g.player r ∧ g'.offer r = g.offer r := by
  have hkept : ∀ r, g'.player r ≠ {} → g'.player r = g.player r := fun r hr => (h r).resolve_left hr
  have hplayer : g'.player r = g.player r := by
    apply hkept
    intro hnone
    exact hr (by rw [hnone])
  refine ⟨hplayer, ?_⟩
  unfold offer partnerItem
  rw [← hplayer]
  cases hpartner : (g'.player r).tradePartner with
  | none => rfl
  | some q =>
    have hq : g'.player q = g.player q := by
      apply hkept
      intro hnone
      have hback := hg.partner r q hpartner
      rw [hnone] at hback
      exact nomatch hback
    show ((g'.player r).tradeItem, (g'.player q).tradeItem) =
      ((g'.player r).tradeItem, (g.player q).tradeItem)
    rw [hq]

/-- What a request to accept does. -/
theorem playerAcceptTrade_cases (g : Trades) (p : PlayerRef)
    (canThrowObjectTo onTradeAccept : Bool) (view : TransferView) :
    let result := g.playerAcceptTrade p canThrowObjectTo onTradeAccept view
    g.accepts p canThrowObjectTo = false ∧ result = { trades := g } ∨
      g.accepts p canThrowObjectTo = true ∧
        ∃ q, (g.player p).tradePartner = some q ∧
          let accepted := g.setTradeState p TRADE_ACCEPT
          ((accepted.player q).tradeState ≠ TRADE_ACCEPT ∧ result = { trades := accepted } ∨
            (accepted.player q).tradeState = TRADE_ACCEPT ∧
              (result = { trades := accepted.internalCloseTrade p } ∨
                result = accepted.acceptBoth p q view)) := by
  unfold playerAcceptTrade accepts
  by_cases honline : g.online p
  · by_cases hstate : (g.player p).tradeState = TRADE_ACKNOWLEDGE ∨
      (g.player p).tradeState = TRADE_INITIATED
    · cases hpartner : (g.player p).tradePartner with
      | none => simp [hstate]
      | some q =>
        cases canThrowObjectTo with
        | false => simp [hstate]
        | true =>
          refine .inr ⟨by simpa [honline, hpartner] using hstate, q, rfl, ?_⟩
          simp only [honline, hstate]
          by_cases hboth : ((g.setTradeState p TRADE_ACCEPT).player q).tradeState = TRADE_ACCEPT
          · refine .inr ⟨hboth, ?_⟩
            cases onTradeAccept with
            | false => simp [hboth]
            | true => simp [hboth]
          · exact .inl ⟨hboth, by simp [hboth]⟩
    · simp [hstate]
  · simp [honline]

end Cleared

end Trades

namespace Watched

open Trades

section Recorded

variable {start : ItemRef → ℕ} {w w' : Watched} {p q r : PlayerRef}

/-- Who has accepted has accepted what he and his partner offer now. -/
structure Recorded (start : ItemRef → ℕ) (w : Watched) : Prop where
  sessions : Sessions start w.trades
  recorded : ∀ r, (w.trades.player r).tradeState = TRADE_ACCEPT → w.accepted r = w.trades.offer r
  seen : w.Seen

theorem Recorded.of_cleared (hw : Recorded start w) {g' : Trades}
    (hcleared : Cleared w.trades g') (hg' : Sessions start g') :
    Recorded start { w with trades := g' } where
  sessions := hg'
  recorded r hr := by
    obtain ⟨hplayer, hoffer⟩ := offer_of_cleared hcleared hg'.paired (r := r) (by
      rw [show (g'.player r).tradeState = TRADE_ACCEPT from hr]
      exact nofun)
    have hold : (w.trades.player r).tradeState = TRADE_ACCEPT := hplayer ▸ hr
    exact (hw.recorded r hold).trans hoffer.symm
  seen := hw.seen

/-- An offer reaches nobody who has accepted. -/
theorem Recorded.request (hw : Recorded start w) {view : RequestView}
    (hfirst : w.OffersFirst (.request p q view)) :
    Recorded start { w with trades := w.trades.playerRequestTrade p q view } := by
  refine ⟨hw.sessions.playerRequestTrade p q view, ?_, hw.seen⟩
  intro r hr
  unfold playerRequestTrade at hr ⊢
  simp only at hr ⊢
  cases hitem : w.trades.requestedItem p q view with
  | none =>
    rw [hitem] at hr
    exact hw.recorded r hr
  | some item =>
    rw [hitem] at hr
    replace hr : ((w.trades.internalStartTrade p q item).2.player r).tradeState = TRADE_ACCEPT :=
      hr
    show w.accepted r = (w.trades.internalStartTrade p q item).2.offer r
    have hpq := (requestedItem_spec hitem).1
    rcases internalStartTrade_cases w.trades hpq item with hsame | ⟨hstarted, hfree, hwilling⟩
    · rw [hsame] at hr ⊢
      exact hw.recorded r hr
    · have hidle := fun r => hw.sessions.paired.idle r (Set.notMem_empty r)
      have hp : (w.trades.player p).tradePartner = none ∨
          (w.trades.player p).tradePartner = some q :=
        hfree.imp (fun h => ((hidle p).mp h).1) And.right
      have hq : (w.trades.player q).tradePartner = none ∨
          (w.trades.player q).tradePartner = some p :=
        hwilling.imp_left fun h => ((hidle q).mp h).1
      by_cases hrp : r = p
      · rw [hrp, hstarted.player] at hr
        exact nomatch hr
      by_cases hrq : r = q
      · rw [hrq, hstarted.partner] at hr
        have haccepted : (w.trades.player q).tradeState = TRADE_ACCEPT := by
          by_cases hnone : (w.trades.player q).tradeState = TRADE_NONE
          · exact nomatch (if_pos hnone).symm.trans hr
          · exact (if_neg hnone).symm.trans hr
        have hpartner : (w.trades.player q).tradePartner = some p := by
          refine hwilling.resolve_left fun hnone => ?_
          exact nomatch haccepted.symm.trans hnone
        have hback := hw.sessions.paired.partner q p hpartner
        have hwaiting : (w.trades.player p).tradeState = TRADE_ACKNOWLEDGE := by
          rcases hfree with hnone | hwaiting
          · exact nomatch ((hidle p).mp hnone).1.symm.trans hback
          · exact hwaiting.1
        exact absurd haccepted (hfirst (by simp [hitem]) hwaiting hback)
      · have hplayer := hstarted.other r hrp hrq
        rw [hplayer] at hr
        rw [hw.recorded r hr]
        obtain ⟨hnotp, hnotq⟩ := hw.sessions.paired.stranger hp hq hrp hrq
        unfold offer partnerItem
        rw [hplayer]
        cases hpartner : (w.trades.player r).tradePartner with
        | none => rfl
        | some s =>
          have hs := hstarted.other s (fun heq => hnotp (heq ▸ hpartner))
            (fun heq => hnotq (heq ▸ hpartner))
          show (_, (w.trades.player s).tradeItem) = (_, (_ : Trader).tradeItem)
          rw [hs]

theorem offer_setTradeState (g : Trades) (p r : PlayerRef) (state : tradestate_t) :
    (g.setTradeState p state).offer r = g.offer r := by
  have htrader : ∀ s, ((g.setTradeState p state).player s).tradePartner =
      (g.player s).tradePartner ∧
      ((g.setTradeState p state).player s).tradeItem = (g.player s).tradeItem := by
    intro s
    unfold setTradeState
    rw [player_setTrader]
    split
    next hs => simp [hs]
    next => exact ⟨rfl, rfl⟩
  unfold offer partnerItem
  rw [(htrader r).1, (htrader r).2]
  congr 2
  exact funext fun s => (htrader s).2

/-- The request to accept is recorded before it is looked at who else has accepted. -/
theorem Recorded.accepted (hw : Recorded start w)
    (hstate : Sessions start (w.trades.setTradeState p TRADE_ACCEPT)) :
    Recorded start
      { w with
        trades := w.trades.setTradeState p TRADE_ACCEPT
        accepted := Function.update w.accepted p (w.trades.offer p) } where
  sessions := hstate
  recorded r hr := by
    show Function.update w.accepted p (w.trades.offer p) r = _
    rw [Function.update_apply, offer_setTradeState]
    by_cases hrp : r = p
    · rw [if_pos hrp, hrp]
    · rw [if_neg hrp]
      apply hw.recorded r
      simpa [setTradeState, hrp] using hr
  seen := hw.seen

theorem Recorded.accept (hw : Recorded start w) (p : PlayerRef)
    (canThrowObjectTo onTradeAccept : Bool) (view : TransferView) :
    Recorded start (w.accept p canThrowObjectTo onTradeAccept view) := by
  have hsessions := hw.sessions.playerAcceptTrade p canThrowObjectTo onTradeAccept view
  unfold Watched.accept
  simp only
  rcases playerAcceptTrade_cases w.trades p canThrowObjectTo onTradeAccept view with
    ⟨haccepts, hresult⟩ | ⟨haccepts, q, hpartner, hcases⟩
  · rw [hresult, haccepts]
    exact hw
  · have hne : q ≠ p := fun heq => hw.sessions.paired.other p (heq ▸ hpartner)
    have hsome : (w.trades.player p).tradeState ≠ TRADE_NONE := by
      intro hnone
      simp [accepts, hnone] at haccepts
    have hstate : Sessions start (w.trades.setTradeState p TRADE_ACCEPT) :=
      hw.sessions.setTradeState hsome nofun nofun nofun
    have haccepted := hw.accepted hstate
    rcases hcases with ⟨hq, hresult⟩ | ⟨hq, hresult | hresult⟩
    · rw [hresult, if_pos haccepts]
      exact haccepted
    · rw [hresult] at hsessions
      rw [hresult, if_pos haccepts]
      exact haccepted.of_cleared (cleared_internalCloseTrade _ p) hsessions
    · rw [hresult] at hsessions
      rw [hresult, if_pos haccepts, hpartner]
      have hclosed := haccepted.of_cleared (cleared_acceptBoth _ p q view) hsessions
      split
      next items partner hitems hsame =>
        obtain rfl := Option.some.inj hsame
        obtain ⟨hitem1, hitem2⟩ := transferred_acceptBoth hitems
        refine { hclosed with seen := ?_ }
        intro transferred hmem
        rcases List.mem_cons.mp hmem with rfl | hmem
        · replace hitem1 : (w.trades.player p).tradeItem = some items.1 := by
            simpa [setTradeState] using hitem1
          replace hitem2 : (w.trades.player q).tradeItem = some items.2 := by
            simpa [setTradeState, hne] using hitem2
          have hwaited : (w.trades.player q).tradeState = TRADE_ACCEPT := by
            simpa [setTradeState, hne] using hq
          have hback := hw.sessions.paired.partner p q hpartner
          constructor
          · show w.trades.offer p = _
            simp [offer, partnerItem, hpartner, hitem1, hitem2]
          · show w.accepted q = _
            rw [hw.recorded q hwaited]
            simp [offer, partnerItem, hback, hitem1, hitem2]
        · exact hw.seen transferred hmem
      next => exact hclosed

theorem Recorded.step (hw : Recorded start w) {action : TradeAction}
    (hfirst : w.OffersFirst action) (h : w.step action = some w') : Recorded start w' := by
  have hother : ∀ {g'}, Cleared w.trades g' → action.step w.trades = some g' →
      Recorded start { w with trades := g' } :=
    fun hcleared hstep => hw.of_cleared hcleared (hw.sessions.step hstep)
  cases action with
  | request p q view => exact Option.some.inj h ▸ hw.request hfirst
  | accept p canThrowObjectTo onTradeAccept view =>
    exact Option.some.inj h ▸ hw.accept p canThrowObjectTo onTradeAccept view
  | close p =>
    have hcleared : Cleared w.trades (w.trades.playerCloseTrade p) := by
      unfold playerCloseTrade
      split
      · exact Cleared.refl _
      · exact cleared_internalCloseTrade _ p
    exact Option.some.inj h ▸ hother hcleared rfl
  | logout p =>
    have hcleared : Cleared w.trades (w.trades.logout p) := by
      unfold logout
      split
      · exact Cleared.refl _
      · intro r
        show (if _ then _ else _ : Trades).player r = {} ∨
          (if _ then _ else _ : Trades).player r = _
        split
        · exact cleared_internalCloseTrade _ p r
        · exact .inr rfl
    exact Option.some.inj h ▸ hother hcleared rfl
  | login p => exact Option.some.inj h ▸ hother (fun _ => .inr rfl) rfl
  | cleanup => exact Option.some.inj h ▸ hother (fun _ => .inr rfl) rfl

end Recorded

/-- If nobody answers with an offer to a partner who has accepted already, every transfer is of
items that both have accepted. -/
theorem always_seen {g : Trades} (hg : g.Quiet) (actions : List TradeAction)
    (hfirst : Run.EachStep step OffersFirst { trades := g } actions) :
    Run.Always step Seen { trades := g } actions := by
  have hstart : Recorded g.referenceCounter { trades := g } :=
    { sessions := hg.sessions
      recorded := fun r hr => by
        rw [show (g.player r) = {} from hg.player r] at hr
        exact nomatch hr
      seen := fun transferred hmem => absurd hmem List.not_mem_nil }
  have hrecorded := Run.always_of_eachStep (fun _ _ _ hw hfirst h => Recorded.step hw hfirst h)
    actions { trades := g } hstart hfirst
  exact hrecorded.mono fun _ hw => hw.seen

theorem quiet_empty : Quiet {} where
  player _ := rfl
  tradeItems := rfl
  toReleaseItems := rfl
  acyclic x hx := by
    obtain ⟨y, hy, -⟩ := Relation.TransGen.head'_iff.mp hx
    exact nomatch hy
  bounded _ _ h := nomatch h

/-- Both have seen the other's offer when they accept. -/
theorem always_seen_swap :
    Run.Always step Seen { trades := {} }
      [.request 1 2 { tradeThing := some 10 }, .request 2 1 { tradeThing := some 20 },
        .accept 1 true true {}, .accept 2 true true {}] := by
  apply always_seen quiet_empty
  intro w hw
  refine ⟨fun _ hwaiting => absurd hwaiting (by decide), ?_⟩
  obtain rfl := Option.some.inj hw
  intro w hw
  refine ⟨fun _ _ _ => by decide, ?_⟩
  exact fun w _ => ⟨trivial, fun w _ => ⟨trivial, trivial⟩⟩

/-- The first accepts before the second has offered anything. -/
theorem accepted_before_offer :
    ¬Run.Always step Seen { trades := {} }
      [.request 1 2 { tradeThing := some 10 }, .accept 1 true true {},
        .request 2 1 { tradeThing := some 20 }, .accept 2 true true {}] := by
  intro h
  let blind : Transferred :=
    { items := (20, 10), accepted := (some 20, some 10), partnerAccepted := (some 10, none) }
  have hrun : (Run.run step { trades := {} }
      [.request 1 2 { tradeThing := some 10 }, .accept 1 true true {},
        .request 2 1 { tradeThing := some 20 }, .accept 2 true true {}]).map Watched.transfers =
      some [blind] := rfl
  obtain ⟨w, hw, htransfers⟩ := Option.map_eq_some_iff.mp hrun
  have hseen : blind.Seen := h.last hw blind (htransfers ▸ List.mem_singleton_self blind)
  exact absurd hseen.2 (by decide)

end Watched

end TibiaServer.Game
