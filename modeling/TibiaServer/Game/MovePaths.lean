import TibiaServer.Game.Exchange
import TibiaServer.Game.Transfer
/-!
# The paths of a move

The first half of a move refuses, or arrives at a state in which the second half is
asked: the state it began with, or that after an exchange.  Where the second half is
let go too, the transfer leaves the state that the move does.
-/

namespace TibiaServer.Game

open TibiaServer.Cylinders
open ReturnValue

/-- The first half comes to the second with the state `t` and the stack that was found. -/
inductive Arrives (s : State) (fromCylinder : Cylinder) (d : Destination) (item : ItemRef)
    (count : ℕ) (actor : Bool) : State → Option ItemRef → Prop
  | accepted (hne : d.destItem ≠ some item)
      (h : s.queryAdd d.cylinder d.index item count d.flags actor = NOERROR) :
      Arrives s fromCylinder d item count actor s d.destItem
  /-- The destination does not give the item in the way, and nobody minds. -/
  | stuck (x : ItemRef) (hx : d.destItem = some x) (hne : x ≠ item)
      (hneed : s.queryAdd d.cylinder d.index item count d.flags actor = NEEDEXCHANGE)
      (hsource : sourceAnswer s fromCylinder item x = NOERROR)
      (hremove : s.queryRemove d.cylinder x (s.getItemCount x) d.flags ≠ NOERROR) :
      Arrives s fromCylinder d item count actor s d.destItem
  | exchanged (x : ItemRef) (h : Exchanges s fromCylinder d item count actor x)
      (hagree : (exchange s fromCylinder d x).queryAdd d.cylinder d.index item count d.flags false =
        NOERROR) :
      Arrives s fromCylinder d item count actor (exchange s fromCylinder d x) none

section Paths

variable {s : State} {fromCylinder toCylinder : Cylinder} {index : ℤ} {item : ItemRef} {count : ℕ}
  {flags : cylinderflags_t} {actor : Bool} {tradeItem : Option ItemRef}

theorem ask_of_arrives {d : Destination} {t : State} {toItem : Option ItemRef}
    (h : Arrives s fromCylinder d item count actor t toItem) :
    d.destItem ≠ some item ∧ ask s fromCylinder d item count actor = some (NOERROR, t, toItem) := by
  cases h with
  | accepted hne hret =>
    refine ⟨hne, ?_⟩
    unfold ask
    simp [hret]
  | stuck x hx hne hneed hsource hremove =>
    refine ⟨fun heq => hne (Option.some.inj (hx.symm.trans heq)), ?_⟩
    unfold ask
    simp [hneed, hx, hsource, hremove]
  | exchanged x hex hagree =>
    refine ⟨fun heq => hex.2.1 (Option.some.inj (hex.1.symm.trans heq)), ?_⟩
    rw [ask_of_exchanges hex, hagree]

theorem arrives_of_ask {d : Destination} {t : State} {toItem : Option ItemRef}
    (hne : d.destItem ≠ some item)
    (h : ask s fromCylinder d item count actor = some (NOERROR, t, toItem)) :
    Arrives s fromCylinder d item count actor t toItem := by
  rcases ask_cases hne h with ⟨ht, htoItem⟩ | ⟨x, hex, ht, htoItem, hret⟩
  · subst ht htoItem
    unfold ask at h
    simp only at h
    split at h
    next =>
      have hret := (Prod.mk.inj (Option.some.inj h)).1
      exact .accepted hne hret
    next hneed =>
      obtain ⟨x, hx, hanswer⟩ := Option.map_eq_some_iff.mp h
      have hother : x ≠ item := fun heq => hne (heq ▸ hx)
      split at hanswer
      next hsource => exact absurd (Prod.mk.inj hanswer).1 hsource
      next hsource =>
        split at hanswer
        next hremove =>
          have hnone := (Prod.mk.inj (Prod.mk.inj hanswer).2).2
          rw [hx] at hnone
          cases hnone
        next hremove =>
          exact .stuck x hx hother (not_not.mp hneed) (not_not.mp hsource) hremove
  · subst ht htoItem
    exact .exchanged x hex hret.symm

/-- A move ends where it began, after a refused exchange, or with a transfer. -/
theorem internalMoveItem_cases {r : MoveResult}
    (h : internalMoveItem s fromCylinder toCylinder index item count flags actor tradeItem =
      some r) :
    let d := destination s toCylinder index item flags
    r.state = s ∨
      (∃ x, Exchanges s fromCylinder d item count actor x ∧ r.ret ≠ NOERROR ∧
        r.state = exchange s fromCylinder d x) ∨
      ∃ t toItem moved moveItem, Arrives s fromCylinder d item count actor t toItem ∧
        Goes t fromCylinder d item count tradeItem ∧
        transfer t fromCylinder d item toItem (movedCount t d item count) =
          some (moved, moveItem) ∧
        SamePlaces moved r.state ∧ r.ret = partAnswer t d item count := by
  unfold internalMoveItem at h
  simp only at h ⊢
  generalize destination s toCylinder index item flags = d at h ⊢
  split at h
  next => exact Or.inl (by rw [← Option.some.inj h])
  next hne =>
    obtain ⟨⟨ret, t, toItem⟩, hask, hrest⟩ := Option.bind_eq_some_iff.mp h
    simp only at hrest
    have hstays : r.ret ≠ NOERROR → r.state = t → r.state = s ∨
        ∃ x, Exchanges s fromCylinder d item count actor x ∧ r.ret ≠ NOERROR ∧
          r.state = exchange s fromCylinder d x := by
      intro hret hstate
      rcases ask_cases hne hask with ⟨ht, -⟩ | ⟨x, hex, ht, -⟩
      · exact Or.inl (hstate.trans ht)
      · exact Or.inr ⟨x, hex, hret, hstate.trans ht⟩
    split at hrest
    next hret =>
      rw [← Option.some.inj hrest] at hstays ⊢
      rcases hstays hret rfl with hsame | hexchanged
      · exact Or.inl hsame
      · exact Or.inr (Or.inl hexchanged)
    next hret =>
      rw [not_not.mp hret] at hask
      rcases moveAccepted_cases hrest with ⟨-, hrefused, hstate⟩ | ⟨hgoes, htransfer⟩
      · rcases hstays hrefused hstate with hsame | hexchanged
        · exact Or.inl hsame
        · exact Or.inr (Or.inl hexchanged)
      · obtain ⟨moved, moveItem, hmoved⟩ := htransfer
        exact Or.inr (Or.inr ⟨t, toItem, moved, moveItem, arrives_of_ask hne hask, hgoes,
          hmoved⟩)

/-- Where the first half arrives, the second half decides. -/
theorem internalMoveItem_of_arrives {t : State} {toItem : Option ItemRef}
    (h : Arrives s fromCylinder (destination s toCylinder index item flags) item count actor t
      toItem) :
    internalMoveItem s fromCylinder toCylinder index item count flags actor tradeItem =
      moveAccepted t fromCylinder (destination s toCylinder index item flags) item toItem count
        tradeItem := by
  obtain ⟨hne, hask⟩ := ask_of_arrives h
  unfold internalMoveItem
  simp only
  rw [if_neg hne, hask, Option.bind_some]
  simp

/-- After an exchange that the destination does not honour nothing else happens. -/
theorem internalMoveItem_of_exchange {x : ItemRef}
    (h : Exchanges s fromCylinder (destination s toCylinder index item flags) item count actor x)
    (hrefused : (exchange s fromCylinder (destination s toCylinder index item flags) x).queryAdd
      (destination s toCylinder index item flags).cylinder
      (destination s toCylinder index item flags).index item count
      (destination s toCylinder index item flags).flags false ≠ NOERROR) :
    ∃ r, internalMoveItem s fromCylinder toCylinder index item count flags actor tradeItem =
        some r ∧
      r.state = exchange s fromCylinder (destination s toCylinder index item flags) x := by
  have hne : (destination s toCylinder index item flags).destItem ≠ some item :=
    fun heq => h.2.1 (Option.some.inj (h.1.symm.trans heq))
  unfold internalMoveItem
  simp only
  rw [if_neg hne, ask_of_exchanges h, Option.bind_some]
  simp only
  rw [if_pos hrefused]
  exact ⟨_, rfl, rfl⟩

end Paths

end TibiaServer.Game
