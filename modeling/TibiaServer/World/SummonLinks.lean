import Mathlib.Algebra.Order.BigOperators.Group.Finset
import TibiaServer.Library.Run
import TibiaServer.Library.TwoWay
import TibiaServer.World.Summons
/-!
# Masters and summons agree

The two sides of the relation disagree while a creature's summons are let go: the creature was
deleted, or it is clearing its list, and those that still point to it wait for `removeMaster`.
The invariant is stated with that set of waiting summons; between two actions it is empty.
-/

namespace TibiaServer.World.Summons

open Library.TwoWay

/-- `m` no longer keeps a list: it was deleted, or its list is being cleared. -/
def Gone (s : State) (clearing : Option CreatureId) (m : CreatureId) : Prop :=
  (s.creature m).isDeleted = true ∨ clearing = some m

theorem gone_some {s : State} {m x : CreatureId} :
    Gone s (some m) x ↔ Gone s none x ∨ x = m := by
  simp only [Gone, Option.some_inj, reduceCtorEq, or_false, @eq_comm _ m x]

/-- The invariant, with the summons in `loose` still to be let go and, while a reference is on
its way back, one reference of `owed` that nobody holds any more. -/
structure Linked (s : State) (clearing owed : Option CreatureId) (loose : List CreatureId) :
    Prop where
  agrees : Agrees (Gone s clearing) (fun c => (s.creature c).master)
    (fun m => (s.creature m).summons) loose
  counted : ∀ c, (s.creature c).referenceCounter = (s.creature c).otherReferences +
    (if (s.creature c).master = none then 0 else 1) + (if owed = some c then 1 else 0)
  deleted : ∀ c, (s.creature c).isDeleted = true → (s.creature c).otherReferences = 0 ∧
    (s.creature c).master = none ∧ (s.creature c).summons = []
  placed : ∀ c, s.Placed c → 0 < (s.creature c).otherReferences
  clears : ∀ m, clearing = some m → 0 < (s.creature m).otherReferences
  fresh : ∀ c, s.size ≤ c → s.creature c = {}

/-- Nobody is made or taken off the map, and no list of summons grows. -/
structure Shrinks (s t : State) : Prop where
  size : t.size = s.size
  removed : ∀ c, (t.creature c).isInternalRemoved = (s.creature c).isInternalRemoved
  summons : ∀ c, (t.creature c).summons.length ≤ (s.creature c).summons.length

variable {s t u : State} {clearing owed : Option CreatureId} {loose pending : List CreatureId}
  {c m : CreatureId}

theorem Shrinks.refl (s : State) : Shrinks s s := ⟨rfl, fun _ => rfl, fun _ => le_rfl⟩

theorem Shrinks.trans (h : Shrinks s t) (h' : Shrinks t u) : Shrinks s u :=
  ⟨h'.size.trans h.size, fun c => (h'.removed c).trans (h.removed c),
    fun c => (h'.summons c).trans (h.summons c)⟩

theorem Shrinks.placed (h : Shrinks s t) (hc : s.Placed c) : t.Placed c := by
  unfold State.Placed
  rw [h.size, h.removed]
  exact hc

theorem Shrinks.entries (h : Shrinks s t) : t.entries ≤ s.entries := by
  unfold State.entries
  rw [h.size]
  exact Finset.sum_le_sum fun c _ => h.summons c

/-- A creature that is pointed from or counted was made and is not deleted. -/
theorem Linked.exists_of_master (h : Linked s clearing owed loose)
    (hc : (s.creature c).master ≠ none) : s.Exists c := by
  constructor
  · by_contra hsize
    rw [h.fresh c (Nat.not_lt.mp hsize)] at hc
    exact hc rfl
  · by_contra hdel
    exact hc (h.deleted c (by simpa using hdel)).2.1

theorem Linked.exists_of_placed (h : Linked s clearing owed loose) (hc : s.Placed c) :
    s.Exists c := by
  refine ⟨hc.1, ?_⟩
  have hother := h.placed c hc
  by_contra hdel
  have hzero := (h.deleted c (by simpa using hdel)).1
  omega

theorem Linked.exists_of_loose (h : Linked s clearing owed loose) (hc : c ∈ loose) :
    s.Exists c :=
  h.exists_of_master (h.agrees.ne_none_of_loose hc)

/-- A change of one creature's counts, and of fields that the relation does not read. -/
theorem Linked.recount {owed' : Option CreatureId} {f : Creature → Creature}
    (h : Linked s clearing owed loose) (hc : s.Exists c)
    (hmaster : ∀ x, (f x).master = x.master) (hsummons : ∀ x, (f x).summons = x.summons)
    (hremoved : ∀ x, (f x).isInternalRemoved = x.isInternalRemoved)
    (hdeleted : ∀ x, (f x).isDeleted = x.isDeleted)
    (hother : s.Placed c ∨ clearing = some c → 0 < (f (s.creature c)).otherReferences)
    (howed : ∀ x, x ≠ c → (owed' = some x ↔ owed = some x))
    (hcount : (f (s.creature c)).referenceCounter - (f (s.creature c)).otherReferences -
        (if owed' = some c then 1 else 0) =
      (s.creature c).referenceCounter - (s.creature c).otherReferences -
        (if owed = some c then 1 else 0)) :
    Linked (s.modify c f) clearing owed' loose ∧ Shrinks s (s.modify c f) := by
  have hM := State.read_modify Creature.master hmaster s c
  have hS := State.read_modify Creature.summons hsummons s c
  have hR := State.read_modify Creature.isInternalRemoved hremoved s c
  have hD := State.read_modify Creature.isDeleted hdeleted s c
  have hpos : ∀ x, (s.Placed x ∨ clearing = some x) →
      0 < ((s.modify c f).creature x).otherReferences := by
    intro x hx
    by_cases hxc : x = c
    · subst hxc
      rw [State.creature_modify_self]
      exact hother hx
    · rw [State.creature_modify_of_ne hxc]
      exact hx.elim (h.placed x) (h.clears x)
  refine ⟨⟨?_, fun x => ?_, fun x hx => ?_, fun x hx => ?_, fun x hx => ?_, fun x hx => ?_⟩,
    rfl, hR, fun x => (congrArg List.length (hS x)).le⟩
  · refine h.agrees.congr (fun b => ?_) hM (fun b _ => hS b)
    unfold Gone
    rw [hD]
  · have h1 := h.counted x
    rw [hM]
    by_cases hxc : x = c
    · subst hxc
      rw [State.creature_modify_self]
      omega
    · simp only [State.creature_modify_of_ne hxc, howed x hxc]
      exact h1
  · rw [hD] at hx
    have hne : x ≠ c := by
      rintro rfl
      rw [hc.2] at hx
      exact Bool.noConfusion hx
    rw [State.creature_modify_of_ne hne]
    exact h.deleted x hx
  · refine hpos x (Or.inl ⟨hx.1, ?_⟩)
    rw [← hR]
    exact hx.2
  · exact hpos x (Or.inr hx)
  · have hne : x ≠ c := by
      rintro rfl
      exact absurd hc.1 (Nat.not_lt.mpr hx)
    rw [State.creature_modify_of_ne hne]
    exact h.fresh x hx

/-- References taken by the others are counted on both sides. -/
theorem Linked.touch {f : Creature → Creature} (h : Linked s clearing owed loose)
    (hc : s.Exists c) (hmaster : ∀ x, (f x).master = x.master)
    (hsummons : ∀ x, (f x).summons = x.summons)
    (hremoved : ∀ x, (f x).isInternalRemoved = x.isInternalRemoved)
    (hdeleted : ∀ x, (f x).isDeleted = x.isDeleted)
    (hother : ∀ x, x.otherReferences ≤ (f x).otherReferences)
    (hcount : ∀ x, (f x).referenceCounter - (f x).otherReferences =
      x.referenceCounter - x.otherReferences) :
    Linked (s.modify c f) clearing owed loose ∧ Shrinks s (s.modify c f) := by
  refine h.recount hc hmaster hsummons hremoved hdeleted (fun hx => ?_) (fun _ _ => Iff.rfl) ?_
  · exact lt_of_lt_of_le (hx.elim (h.placed c) (h.clears c)) (hother _)
  · rw [hcount]

/-! ## Giving a reference back -/

/-- A list is emptied: the sum of all lengths drops by its length. -/
theorem sum_emptied {n : ℕ} {f g : ℕ → ℕ} (hc : c < n) (hle : ∀ x, g x ≤ f x) (hzero : g c = 0) :
    ∑ x ∈ Finset.range n, g x + f c ≤ ∑ x ∈ Finset.range n, f x := by
  have hmem : c ∈ Finset.range n := Finset.mem_range.mpr hc
  rw [← Finset.add_sum_erase _ g hmem, ← Finset.add_sum_erase _ f hmem, hzero]
  have hrest : ∑ x ∈ (Finset.range n).erase c, g x ≤ ∑ x ∈ (Finset.range n).erase c, f x :=
    Finset.sum_le_sum fun x _ => hle x
  omega

/-- The owed reference is given back; the summons of a creature that is deleted with it become
loose. -/
theorem decrement_spec (h : Linked s clearing (some c) loose) (hc : s.Exists c) :
    Linked (decrement s c).1 clearing none ((decrement s c).2 ++ loose) ∧
      Shrinks s (decrement s c).1 ∧
      (decrement s c).1.entries + (decrement s c).2.length ≤ s.entries := by
  have hcount := h.counted c
  rw [if_pos rfl] at hcount
  unfold decrement
  by_cases hlast : (s.creature c).referenceCounter - 1 = 0
  · have hmaster : (s.creature c).master = none := by
      by_contra hne
      rw [if_neg hne] at hcount
      omega
    rw [if_pos hmaster] at hcount
    have hother : (s.creature c).otherReferences = 0 := by omega
    have hgone : ¬ Gone s clearing c := by
      rintro (hdel | hclear)
      · rw [hc.2] at hdel
        exact Bool.noConfusion hdel
      · have := h.clears c hclear
        omega
    rw [if_pos hlast]
    set f : Creature → Creature := fun x =>
      { x with referenceCounter := 0, summons := [], isDeleted := true } with hf
    have hM := State.read_modify Creature.master (f := f) (fun _ => rfl) s c
    have hO := State.read_modify Creature.otherReferences (f := f) (fun _ => rfl) s c
    have hR := State.read_modify Creature.isInternalRemoved (f := f) (fun _ => rfl) s c
    have hshrinks : Shrinks s (s.modify c f) := by
      refine ⟨rfl, hR, fun x => ?_⟩
      by_cases hx : x = c
      · subst hx
        simp [hf]
      · rw [State.creature_modify_of_ne hx]
    refine ⟨⟨?_, fun x => ?_, fun x hx => ?_, fun x hx => ?_, fun x hx => ?_, fun x hx => ?_⟩,
      hshrinks, ?_⟩
    · have hagrees : Agrees (Gone (s.modify c f) clearing) (fun x => (s.creature x).master)
          (fun m => ((s.modify c f).creature m).summons) ((s.creature c).summons ++ loose) := by
        refine h.agrees.giveUp hgone (fun x => ?_) (fun x hx => ?_)
        · unfold Gone
          by_cases hx : x = c
          · subst hx
            simp [hf]
          · rw [State.creature_modify_of_ne hx]
            simp [hx]
        · simp only [State.creature_modify_of_ne hx]
      exact hagrees.congr (fun _ => Iff.rfl) hM (fun _ _ => rfl)
    · rw [hM, hO]
      by_cases hx : x = c
      · subst hx
        simp [hf, hmaster, hother]
      · have hx' := h.counted x
        rw [if_neg (fun heq => hx (Option.some.inj heq).symm)] at hx'
        rw [State.creature_modify_of_ne hx, hx']
        simp
    · by_cases hx' : x = c
      · subst hx'
        simp [hf, hmaster, hother]
      · rw [State.creature_modify_of_ne hx'] at hx ⊢
        exact h.deleted x hx
    · rw [hO]
      exact h.placed x ⟨hx.1, by rw [← hR]; exact hx.2⟩
    · rw [hO]
      exact h.clears x hx
    · have hne : x ≠ c := by
        rintro rfl
        exact absurd hc.1 (Nat.not_lt.mpr hx)
      rw [State.creature_modify_of_ne hne]
      exact h.fresh x hx
    · exact sum_emptied hc.1 hshrinks.summons (by simp [hf])
  · rw [if_neg hlast]
    have hkept : Linked (s.modify c fun x => { x with referenceCounter := x.referenceCounter - 1 })
        clearing none loose ∧ Shrinks s _ :=
      h.recount hc (fun _ => rfl) (fun _ => rfl) (fun _ => rfl) (fun _ => rfl)
        (fun hx => hx.elim (h.placed c) (h.clears c)) (fun x hx => by simp [Ne.symm hx])
        (by simp; omega)
    exact ⟨hkept.1, hkept.2, hkept.2.entries⟩

/-- `removeMaster`, up to the reference that is then given back. -/
theorem Linked.forget (h : Linked s clearing none (c :: loose)) :
    Linked (s.modify c fun x => { x with master := none }) clearing (some c) loose ∧
      Shrinks s (s.modify c fun x => { x with master := none }) := by
  have hex := h.exists_of_loose List.mem_cons_self
  have hmaster : (s.creature c).master ≠ none := h.agrees.ne_none_of_loose List.mem_cons_self
  set f : Creature → Creature := fun x => { x with master := none } with hf
  have hS := State.read_modify Creature.summons (f := f) (fun _ => rfl) s c
  have hO := State.read_modify Creature.otherReferences (f := f) (fun _ => rfl) s c
  have hC := State.read_modify Creature.referenceCounter (f := f) (fun _ => rfl) s c
  have hR := State.read_modify Creature.isInternalRemoved (f := f) (fun _ => rfl) s c
  have hD := State.read_modify Creature.isDeleted (f := f) (fun _ => rfl) s c
  have hM : ∀ x, ((s.modify c f).creature x).master =
      Function.update (fun x => (s.creature x).master) c none x := by
    intro x
    by_cases hx : x = c
    · subst hx
      simp [hf]
    · rw [State.creature_modify_of_ne hx, Function.update_of_ne hx]
  refine ⟨⟨?_, fun x => ?_, fun x hx => ?_, fun x hx => ?_, fun x hx => ?_, fun x hx => ?_⟩,
    rfl, hR, fun x => (congrArg List.length (hS x)).le⟩
  · refine h.agrees.detach.congr (fun b => ?_) hM (fun b _ => hS b)
    unfold Gone
    rw [hD]
  · have hx := h.counted x
    rw [hC, hO, hx]
    by_cases hxc : x = c
    · subst hxc
      simp [hf, hmaster]
    · rw [State.creature_modify_of_ne hxc]
      simp [Ne.symm hxc]
  · have hne : x ≠ c := by
      rintro rfl
      rw [hD, hex.2] at hx
      exact Bool.noConfusion hx
    rw [State.creature_modify_of_ne hne] at hx ⊢
    exact h.deleted x hx
  · rw [hO]
    exact h.placed x ⟨hx.1, by rw [← hR]; exact hx.2⟩
  · rw [hO]
    exact h.clears x hx
  · have hne : x ≠ c := by
      rintro rfl
      exact absurd hex.1 (Nat.not_lt.mpr hx)
    rw [State.creature_modify_of_ne hne]
    exact h.fresh x hx

/-- The loop of the destructor ends, and leaves nobody loose of those it was given. -/
theorem removeMasters_spec (fuel : ℕ) : ∀ {s : State} {pending : List CreatureId},
    Linked s clearing none (pending ++ loose) → pending.length + s.entries ≤ fuel →
    ∃ t, removeMasters fuel s pending = some t ∧ Linked t clearing none loose ∧ Shrinks s t := by
  induction fuel with
  | zero =>
    intro s pending h hfuel
    obtain rfl : pending = [] := List.length_eq_zero_iff.mp (by omega)
    exact ⟨s, rfl, h, Shrinks.refl s⟩
  | succ fuel ih =>
    intro s pending h hfuel
    cases pending with
    | nil => exact ⟨s, rfl, h, Shrinks.refl s⟩
    | cons c rest =>
      have hcons : Linked s clearing none (c :: (rest ++ loose)) := h
      have hmaster : (s.creature c).master ≠ none :=
        h.agrees.ne_none_of_loose List.mem_cons_self
      have hex := h.exists_of_loose List.mem_cons_self
      obtain ⟨hforgot, hshrinks⟩ := hcons.forget
      set s' := s.modify c fun x => { x with master := none } with hs'
      have hex' : s'.Exists c := ⟨hex.1, by simpa [hs'] using hex.2⟩
      obtain ⟨hdec, hshrinks', hentries⟩ := decrement_spec hforgot hex'
      have hle := hshrinks.entries
      rw [← List.append_assoc] at hdec
      simp only [List.length_cons] at hfuel
      obtain ⟨t, ht, hlinked, hst⟩ := ih hdec (by rw [List.length_append]; omega)
      refine ⟨t, ?_, hlinked, (hshrinks.trans hshrinks').trans hst⟩
      rw [removeMasters, if_neg hmaster]
      exact ht

theorem removeMaster_spec (h : Linked s clearing none (c :: loose)) :
    ∃ t, removeMaster s c = some t ∧ Linked t clearing none loose ∧ Shrinks s t :=
  removeMasters_spec _ h (by simp [Nat.add_comm])

theorem decrementReferenceCounter_spec (h : Linked s clearing (some c) loose) (hc : s.Exists c) :
    ∃ t, decrementReferenceCounter s c = some t ∧ Linked t clearing none loose ∧ Shrinks s t := by
  obtain ⟨hdec, hshrinks, -⟩ := decrement_spec h hc
  obtain ⟨t, ht, hlinked, hst⟩ := removeMasters_spec _ hdec (Nat.add_comm ..).le
  exact ⟨t, ht, hlinked, hshrinks.trans hst⟩

/-! ## Choosing a master -/

/-- `setMaster` up to the reference of the old master. -/
def redirected (s : State) (c : CreatureId) (newMaster : Option CreatureId) : State :=
  { s with creature := fun x => { s.creature x with
      master := Function.update (fun x => (s.creature x).master) c newMaster x
      summons := moved (fun m => (s.creature m).summons) c (s.creature c).master newMaster x
      referenceCounter := (s.creature x).referenceCounter +
        if x = c ∧ newMaster ≠ none then 1 else 0 } }

theorem creature_directTo (s : State) (c : CreatureId) (newMaster : Option CreatureId)
    (x : CreatureId) :
    (directTo s c newMaster).creature x = { s.creature x with
      master := Function.update (fun x => (s.creature x).master) c newMaster x
      summons := if newMaster = some x then (s.creature x).summons ++ [c]
        else (s.creature x).summons
      referenceCounter := (s.creature x).referenceCounter +
        if x = c ∧ newMaster ≠ none then 1 else 0 } := by
  unfold directTo
  cases newMaster with
  | none =>
    rcases eq_or_ne x c with rfl | hx
    · simp
    · simp [State.creature_modify_of_ne hx, hx]
  | some m =>
    unfold incrementReferenceCounter
    rcases eq_or_ne x c with rfl | hx <;> rcases eq_or_ne x m with rfl | hm
    · simp
    · simp [State.creature_modify_of_ne hm, Ne.symm hm]
    · simp [State.creature_modify_of_ne hx, hx]
    · simp [State.creature_modify_of_ne hx, State.creature_modify_of_ne hm, hx, Ne.symm hm]

@[simp] theorem size_directTo (s : State) (c : CreatureId) (newMaster : Option CreatureId) :
    (directTo s c newMaster).size = s.size := by
  cases newMaster <;> rfl

theorem setMaster_eq {newMaster : Option CreatureId} (h : Linked s none none [])
    (hnone : ¬ (newMaster = none ∧ (s.creature c).master = none)) :
    setMaster s c newMaster =
      if (s.creature c).master = none then some (redirected s c newMaster)
      else decrementReferenceCounter (redirected s c newMaster) c := by
  unfold setMaster
  rw [if_neg hnone]
  cases hold : (s.creature c).master with
  | none =>
    refine congrArg some (State.ext (by simp [redirected]) (funext fun x => ?_))
    simp [creature_directTo, redirected, moved, hold]
  | some o =>
    have hin : c ∈ (s.creature o).summons :=
      (h.agrees.mem_many o (h.agrees.not_gone List.not_mem_nil hold) c).mpr hold
    have hin' : c ∈ ((directTo s c newMaster).creature o).summons := by
      rw [creature_directTo]
      dsimp only
      split
      · exact List.mem_append_left _ hin
      · exact hin
    simp only [if_pos hin', if_neg (Option.some_ne_none o)]
    refine congrArg (decrementReferenceCounter · c) (State.ext (by simp [redirected]) ?_)
    funext x
    rcases eq_or_ne x o with rfl | hx
    · simp [creature_directTo, redirected, moved, hold]
    · simp [State.creature_modify_of_ne hx, creature_directTo, redirected, moved, hold,
        Ne.symm hx]

theorem redirected_linked {newMaster : Option CreatureId} (h : Linked s none none [])
    (hc : s.Exists c) (hnew : ∀ m ∈ newMaster, s.Exists m) :
    Linked (redirected s c newMaster) none
      (if (s.creature c).master = none then none else some c) [] where
  agrees := by
    have hgone : ∀ m, newMaster = some m → ¬ Gone s none m := by
      rintro m hm (hdel | hclear)
      · rw [(hnew m hm).2] at hdel
        exact Bool.noConfusion hdel
      · exact absurd hclear (by simp)
    exact h.agrees.redirect List.not_mem_nil hgone
  counted x := by
    have hx := h.counted x
    have hM : ((redirected s c newMaster).creature x).master =
        if x = c then newMaster else (s.creature x).master := by
      simp [redirected, Function.update_apply]
    have hC : ((redirected s c newMaster).creature x).referenceCounter =
        (s.creature x).referenceCounter + if x = c ∧ newMaster ≠ none then 1 else 0 := rfl
    have hO : ((redirected s c newMaster).creature x).otherReferences =
        (s.creature x).otherReferences := rfl
    rw [hC, hO, hx]
    simp only [hM]
    rcases eq_or_ne x c with rfl | hne
    · cases newMaster <;> cases (s.creature x).master <;> simp
    · cases (s.creature c).master <;> simp [hne, Ne.symm hne]
  deleted x hx := by
    have hne : x ≠ c := by
      rintro rfl
      have hdel : (s.creature x).isDeleted = true := hx
      rw [hc.2] at hdel
      exact Bool.noConfusion hdel
    have hnew' : newMaster ≠ some x := by
      rintro rfl
      have hdel : (s.creature x).isDeleted = true := hx
      rw [(hnew x rfl).2] at hdel
      exact Bool.noConfusion hdel
    obtain ⟨hother, hmaster, hsummons⟩ := h.deleted x hx
    refine ⟨hother, ?_, ?_⟩
    · simpa [redirected, hne] using hmaster
    · simp [redirected, moved, hnew', hsummons]
  placed x hx := h.placed x hx
  clears m hm := absurd hm (by simp)
  fresh x hx := by
    have hfresh := h.fresh x hx
    have hne : x ≠ c := by
      rintro rfl
      exact absurd hc.1 (Nat.not_lt.mpr hx)
    have hnew' : newMaster ≠ some x := by
      rintro rfl
      exact absurd (hnew x rfl).1 (Nat.not_lt.mpr hx)
    simp [redirected, moved, hnew', hne, hfresh]

theorem length_summons_redirected_none (s : State) (c x : CreatureId) :
    ((redirected s c none).creature x).summons.length ≤ (s.creature x).summons.length := by
  simp only [redirected, moved]
  split
  · simpa using List.length_erase_le
  · simp

/-- What the callers of `setMaster` rely on: it returns, the relation holds again, and nobody is
made or taken off the map. -/
theorem setMaster_spec (newMaster : Option CreatureId) (h : Linked s none none [])
    (hc : s.Exists c) (hnew : ∀ m ∈ newMaster, s.Exists m) :
    ∃ t, setMaster s c newMaster = some t ∧ Linked t none none [] ∧ t.size = s.size ∧
      (∀ x, (t.creature x).isInternalRemoved = (s.creature x).isInternalRemoved) ∧
      (newMaster = none → Shrinks s t) := by
  by_cases hnone : newMaster = none ∧ (s.creature c).master = none
  · refine ⟨s, ?_, h, rfl, fun _ => rfl, fun _ => Shrinks.refl s⟩
    unfold setMaster
    rw [if_pos hnone]
  · have hlinked := redirected_linked h hc hnew
    have hshrinks : newMaster = none → Shrinks s (redirected s c newMaster) := by
      rintro rfl
      exact ⟨rfl, fun _ => rfl, length_summons_redirected_none s c⟩
    rw [setMaster_eq h hnone]
    by_cases hold : (s.creature c).master = none
    · rw [if_pos hold] at hlinked ⊢
      exact ⟨_, rfl, hlinked, rfl, fun _ => rfl, hshrinks⟩
    · rw [if_neg hold] at hlinked ⊢
      obtain ⟨t, ht, hlinked', hst⟩ := decrementReferenceCounter_spec hlinked hc
      exact ⟨t, ht, hlinked', hst.size, hst.removed, fun hnew => (hshrinks hnew).trans hst⟩

/-! ## Killing the summons -/

theorem takeReference_spec (h : Linked s clearing owed loose) (hc : s.Exists c) :
    Linked (takeReference s c) clearing owed loose ∧ Shrinks s (takeReference s c) := by
  unfold takeReference
  refine h.touch hc (fun _ => rfl) (fun _ => rfl) (fun _ => rfl) (fun _ => rfl)
    (fun _ => Nat.le_succ _) (fun _ => ?_)
  simp

theorem setInCheckCreaturesVector_spec (h : Linked s clearing owed loose) (hc : s.Exists c)
    (flag : Bool) :
    Linked (s.modify c fun x => { x with inCheckCreaturesVector := flag }) clearing owed loose ∧
      Shrinks s (s.modify c fun x => { x with inCheckCreaturesVector := flag }) := by
  apply h.touch hc <;> intro x <;> rfl

theorem addCreatureCheck_spec (h : Linked s clearing owed loose) (hc : s.Exists c) :
    Linked (addCreatureCheck s c) clearing owed loose ∧ Shrinks s (addCreatureCheck s c) ∧
      (addCreatureCheck s c).Exists c := by
  unfold addCreatureCheck
  split
  · exact ⟨h, Shrinks.refl s, hc⟩
  · obtain ⟨htaken, hshrinks⟩ := takeReference_spec h hc
    have hex : (takeReference s c).Exists c := ⟨hc.1, by simpa [takeReference] using hc.2⟩
    obtain ⟨hflag, hshrinks'⟩ := setInCheckCreaturesVector_spec htaken hex true
    refine ⟨hflag, hshrinks.trans hshrinks', hc.1, ?_⟩
    rw [State.creature_modify_self]
    exact hex.2

theorem changeHealth_spec (h : Linked s clearing owed loose) (hc : s.Exists c)
    (healthChange : ℤ) :
    Linked (changeHealth s c healthChange) clearing owed loose ∧
      Shrinks s (changeHealth s c healthChange) := by
  obtain ⟨hadd, hshrinks, hex⟩ := addCreatureCheck_spec h hc
  unfold changeHealth
  dsimp only
  split
  · have htouch := hadd.touch (f := fun x =>
        if 0 < healthChange then
          { x with health := x.health + min healthChange (x.healthMax - x.health) }
        else { x with health := max 0 (x.health + healthChange) }) hex
      (fun _ => by split <;> rfl) (fun _ => by split <;> rfl) (fun _ => by split <;> rfl)
      (fun _ => by split <;> rfl) (fun _ => by split <;> rfl) (fun _ => by split <;> rfl)
    exact ⟨htouch.1, hshrinks.trans htouch.2⟩
  · exact h.touch hc (fun _ => by split <;> rfl) (fun _ => by split <;> rfl)
      (fun _ => by split <;> rfl) (fun _ => by split <;> rfl) (fun _ => by split <;> rfl)
      (fun _ => by split <;> rfl)

theorem killEach_spec : ∀ {W : List CreatureId} {s : State}, Linked s clearing none W →
    ∃ t, killEach s W = some t ∧ Linked t clearing none [] ∧ Shrinks s t := by
  intro W
  induction W with
  | nil => exact fun h => ⟨_, rfl, h, Shrinks.refl _⟩
  | cons c rest ih =>
    intro s h
    have hhealth := changeHealth_spec h (h.exists_of_loose List.mem_cons_self)
      (-(s.creature c).health)
    obtain ⟨t, ht, hlinked, hst⟩ := removeMaster_spec hhealth.1
    obtain ⟨u, hu, hlinked', htu⟩ := ih hlinked
    refine ⟨u, ?_, hlinked', hhealth.2.trans (hst.trans htu)⟩
    simp [killEach, ht, hu]

/-- While a creature clears its list, all its summons are loose. -/
theorem Linked.startClearing (h : Linked s none none []) (hc : s.Placed c) :
    Linked s (some c) none (s.creature c).summons where
  agrees := by
    have hgone : ¬ Gone s none c := by
      rintro (hdel | hclear)
      · rw [(h.exists_of_placed hc).2] at hdel
        exact Bool.noConfusion hdel
      · exact absurd hclear (by simp)
    have hagrees : Agrees (Gone s (some c)) (fun x => (s.creature x).master)
        (fun m => (s.creature m).summons) ((s.creature c).summons ++ []) := by
      refine h.agrees.giveUp hgone (fun x => ?_) (fun _ _ => rfl)
      exact gone_some
    rwa [List.append_nil] at hagrees
  counted := h.counted
  deleted := h.deleted
  placed := h.placed
  clears m hm := by
    obtain rfl : c = m := Option.some.inj hm
    exact h.placed c hc
  fresh := h.fresh

theorem Linked.cleared (h : Linked s (some c) none []) (hc : c < s.size) :
    Linked (s.modify c fun x => { x with summons := [] }) none none [] := by
  set f : Creature → Creature := fun x => { x with summons := [] } with hf
  have hM := State.read_modify Creature.master (f := f) (fun _ => rfl) s c
  have hO := State.read_modify Creature.otherReferences (f := f) (fun _ => rfl) s c
  have hC := State.read_modify Creature.referenceCounter (f := f) (fun _ => rfl) s c
  have hR := State.read_modify Creature.isInternalRemoved (f := f) (fun _ => rfl) s c
  have hD := State.read_modify Creature.isDeleted (f := f) (fun _ => rfl) s c
  refine ⟨?_, fun x => ?_, fun x hx => ?_, fun x hx => ?_, fun x hx => ?_, fun x hx => ?_⟩
  · have hagrees : Agrees (Gone (s.modify c f) none) (fun x => (s.creature x).master)
        (fun m => ((s.modify c f).creature m).summons) [] := by
      refine h.agrees.startAgain (b := c) (fun x => ?_) (by simp [hf]) (fun x hx => ?_)
      · rw [gone_some]
        simp only [Gone, hD]
      · simp only [State.creature_modify_of_ne hx]
    exact hagrees.congr (fun _ => Iff.rfl) hM (fun _ _ => rfl)
  · rw [hC, hO, hM]
    exact h.counted x
  · rw [hD] at hx
    obtain ⟨hother, hmaster, hsummons⟩ := h.deleted x hx
    rw [hO, hM]
    refine ⟨hother, hmaster, ?_⟩
    rcases eq_or_ne x c with rfl | hne
    · simp [hf]
    · rw [State.creature_modify_of_ne hne, hsummons]
  · rw [hO]
    exact h.placed x ⟨hx.1, by rw [← hR]; exact hx.2⟩
  · exact absurd hx (by simp)
  · have hne : x ≠ c := by
      rintro rfl
      exact absurd hc (Nat.not_lt.mpr hx)
    rw [State.creature_modify_of_ne hne]
    exact h.fresh x hx

theorem killSummons_spec (h : Linked s none none []) (hc : s.Placed c) :
    ∃ t, killSummons s c = some t ∧ Linked t none none [] ∧ Shrinks s t := by
  obtain ⟨t, ht, hlinked, hst⟩ := killEach_spec (h.startClearing hc)
  refine ⟨t.modify c fun x => { x with summons := [] }, ?_, ?_, hst.trans ⟨rfl, ?_, fun x => ?_⟩⟩
  · simp [killSummons, ht]
  · exact hlinked.cleared (by rw [hst.size]; exact hc.1)
  · exact State.read_modify Creature.isInternalRemoved (f := fun x => { x with summons := [] })
      (fun _ => rfl) t c
  · rcases eq_or_ne x c with rfl | hne
    · simp
    · rw [State.creature_modify_of_ne hne]

theorem convinceCreature_spec (h : Linked s none none []) (hc : s.Placed c)
    (hm : s.Exists m) :
    ∃ t, convinceCreature s c m = some t ∧ Linked t none none [] := by
  unfold convinceCreature
  dsimp only
  generalize (!(s.creature c).isMonster || _ || _) = refused
  cases refused with
  | true => exact ⟨s, rfl, h⟩
  | false =>
    have hex := h.exists_of_placed hc
    obtain ⟨t, ht, hlinked, hsize, hremoved, -⟩ := setMaster_spec (some m) h hex
      (by simpa using hm)
    have hplaced : t.Placed c := ⟨by rw [hsize]; exact hc.1, by rw [hremoved]; exact hc.2⟩
    obtain ⟨u, hu, hlinked', -⟩ := killSummons_spec hlinked hplaced
    exact ⟨u, by simp [ht, hu], hlinked'⟩

/-! ## Removal -/

theorem onRemoveCreature_spec (h : Linked s none none []) (hc : s.Exists c) :
    ∃ t, onRemoveCreature s c = some t ∧ Linked t none none [] ∧ Shrinks s t := by
  unfold onRemoveCreature
  split
  · split
    · exact ⟨s, rfl, h, Shrinks.refl s⟩
    · obtain ⟨t, ht, hlinked, -, -, hst⟩ := setMaster_spec none h hc (by simp)
      exact ⟨t, ht, hlinked, hst rfl⟩
  · exact ⟨s, rfl, h, Shrinks.refl s⟩

theorem Linked.setRemoved (h : Linked s none none []) (hc : c < s.size) :
    Linked (s.modify c fun x => { x with isInternalRemoved := true }) none none [] := by
  set f : Creature → Creature := fun x => { x with isInternalRemoved := true } with hf
  have hM := State.read_modify Creature.master (f := f) (fun _ => rfl) s c
  have hS := State.read_modify Creature.summons (f := f) (fun _ => rfl) s c
  have hO := State.read_modify Creature.otherReferences (f := f) (fun _ => rfl) s c
  have hC := State.read_modify Creature.referenceCounter (f := f) (fun _ => rfl) s c
  have hD := State.read_modify Creature.isDeleted (f := f) (fun _ => rfl) s c
  refine ⟨?_, fun x => ?_, fun x hx => ?_, fun x hx => ?_, fun x hx => ?_, fun x hx => ?_⟩
  · refine h.agrees.congr (fun x => ?_) hM (fun m _ => hS m)
    unfold Gone
    rw [hD]
  · rw [hC, hO, hM]
    exact h.counted x
  · rw [hD] at hx
    rw [hO, hM, hS]
    exact h.deleted x hx
  · have hne : x ≠ c := by
      rintro rfl
      exact absurd hx.2 (by simp [hf])
    rw [hO]
    exact h.placed x ⟨hx.1, by rw [← State.creature_modify_of_ne hne]; exact hx.2⟩
  · exact absurd hx (by simp)
  · have hne : x ≠ c := by
      rintro rfl
      exact absurd hc (Nat.not_lt.mpr hx)
    rw [State.creature_modify_of_ne hne]
    exact h.fresh x hx

/-- The entries of the lists whose owners are still on the map. -/
def placedEntries (s : State) : ℕ :=
  ∑ c ∈ Finset.range s.size,
    if (s.creature c).isInternalRemoved then 0 else (s.creature c).summons.length

theorem placedEntries_le (s : State) : placedEntries s ≤ s.entries :=
  Finset.sum_le_sum fun c _ => by split <;> simp

theorem Shrinks.placedEntries (h : Shrinks s t) : placedEntries t ≤ placedEntries s := by
  unfold Summons.placedEntries
  rw [h.size]
  refine Finset.sum_le_sum fun c _ => ?_
  rw [h.removed]
  split
  · exact le_rfl
  · exact h.summons c

theorem placedEntries_setRemoved (hc : s.Placed c) :
    placedEntries (s.modify c fun x => { x with isInternalRemoved := true }) +
      (s.creature c).summons.length ≤ placedEntries s := by
  set f : Creature → Creature := fun x => { x with isInternalRemoved := true } with hf
  have hsum := sum_emptied (n := s.size) (c := c)
    (f := fun x => if (s.creature x).isInternalRemoved then 0 else (s.creature x).summons.length)
    (g := fun x => if ((s.modify c f).creature x).isInternalRemoved then 0
      else ((s.modify c f).creature x).summons.length) hc.1 (fun x => ?_) (by simp [hf])
  · simpa [hc.2, placedEntries] using hsum
  · rcases eq_or_ne x c with rfl | hne
    · simp [hf]
    · rw [State.creature_modify_of_ne hne]

theorem removeCreatures_spec (fuel : ℕ) : ∀ {s : State} {W : List CreatureId},
    Linked s none none [] → (∀ c ∈ W, c < s.size) → W.length + placedEntries s ≤ fuel →
    ∃ t, removeCreatures fuel s W = some t ∧ Linked t none none [] := by
  induction fuel with
  | zero =>
    intro s W h _ hfuel
    obtain rfl : W = [] := List.length_eq_zero_iff.mp (by omega)
    exact ⟨s, rfl, h⟩
  | succ fuel ih =>
    intro s W h hmade hfuel
    cases W with
    | nil => exact ⟨s, rfl, h⟩
    | cons c rest =>
      rw [List.length_cons] at hfuel
      have hc : c < s.size := hmade c List.mem_cons_self
      have hrest : ∀ x ∈ rest, x < s.size := fun x hx => hmade x (List.mem_cons_of_mem _ hx)
      unfold removeCreatures
      cases hremoved : (s.creature c).isInternalRemoved with
      | true => exact ih h hrest (by omega)
      | false =>
        have hplaced : s.Placed c := ⟨hc, hremoved⟩
        obtain ⟨t, ht, hlinked, hst⟩ := onRemoveCreature_spec h (h.exists_of_placed hplaced)
        have hplaced' := hst.placed hplaced
        have hlinked' := hlinked.setRemoved hplaced'.1
        have hle := hst.placedEntries
        have hdrop := placedEntries_setRemoved hplaced'
        set u := t.modify c fun x => { x with isInternalRemoved := true } with hu
        have hsummons : (u.creature c).summons = (t.creature c).summons := by simp [hu]
        have hmade' : ∀ x ∈ (u.creature c).summons ++ rest, x < u.size := by
          intro x hx
          rcases List.mem_append.mp hx with hx | hx
          · have hgone : ¬ Gone u none c := by
              rintro (hdel | hclear)
              · have hdel' : (t.creature c).isDeleted = true := by simpa [hu] using hdel
                rw [(hlinked.exists_of_placed hplaced').2] at hdel'
                exact Bool.noConfusion hdel'
              · exact absurd hclear (by simp)
            have hmaster := (hlinked'.agrees.mem_many c hgone x).mp hx
            exact (hlinked'.exists_of_master (by simp [hmaster])).1
          · have := hrest x hx
            rwa [hu, State.size_modify, hst.size]
        obtain ⟨v, hv, hlinked''⟩ := ih hlinked' hmade' (by
          rw [List.length_append, hsummons]
          omega)
        refine ⟨v, ?_, hlinked''⟩
        simp only [ht, Option.bind_some]
        exact hv

theorem removeCreature_spec (h : Linked s none none []) (hc : s.Exists c) :
    ∃ t, removeCreature s c = some t ∧ Linked t none none [] := by
  refine removeCreatures_spec _ h (by simpa using hc.1) ?_
  have := placedEntries_le s
  simp only [List.length_singleton]
  omega

theorem onDeath_spec (h : Linked s none none []) (hc : s.Placed c) (droppedCorpse : Bool) :
    ∃ t, onDeath s c droppedCorpse = some t ∧ Linked t none none [] := by
  have hkill : ∃ t, (if (s.creature c).isMonster then killSummons s c else some s) = some t ∧
      Linked t none none [] ∧ Shrinks s t := by
    split
    · exact killSummons_spec h hc
    · exact ⟨s, rfl, h, Shrinks.refl s⟩
  obtain ⟨t, ht, hlinked, hst⟩ := hkill
  have hplaced := hst.placed hc
  have hmaster : ∃ u, (if (t.creature c).master = none then some t else setMaster t c none) =
      some u ∧ Linked u none none [] ∧ Shrinks t u := by
    split
    · exact ⟨t, rfl, hlinked, Shrinks.refl t⟩
    · obtain ⟨u, hu, hlinked', -, -, htu⟩ := setMaster_spec none hlinked
        (hlinked.exists_of_placed hplaced) (by simp)
      exact ⟨u, hu, hlinked', htu rfl⟩
  obtain ⟨u, hu, hlinked', htu⟩ := hmaster
  have hplaced' := htu.placed hplaced
  unfold onDeath
  simp only [ht, hu, Option.bind_some]
  cases droppedCorpse with
  | false => exact ⟨u, rfl, hlinked'⟩
  | true => exact removeCreature_spec hlinked' (hlinked'.exists_of_placed hplaced')

theorem onCreatureMove_spec (h : Linked s none none []) (hc : s.Placed c) (newPos : Position)
    (positions : CreatureId → Position) :
    ∃ t, onCreatureMove s c newPos positions = some t ∧ Linked t none none [] := by
  refine removeCreatures_spec _ h (fun x hx => ?_) ?_
  · have hgone : ¬ Gone s none c := by
      rintro (hdel | hclear)
      · rw [(h.exists_of_placed hc).2] at hdel
        exact Bool.noConfusion hdel
      · exact absurd hclear (by simp)
    have hin := (List.mem_filter.mp (List.mem_reverse.mp hx)).1
    have hmaster := (h.agrees.mem_many c hgone x).mp hin
    exact (h.exists_of_master (by simp [hmaster])).1
  · have := placedEntries_le s
    omega

/-! ## Runs -/

theorem start_linked : Linked State.start none none [] where
  agrees := agrees_empty (by simp [Gone, State.start]) (fun _ => rfl) (fun _ => rfl)
  counted _ := rfl
  deleted c hc := Bool.noConfusion hc
  placed c hc := absurd hc.1 (Nat.not_lt_zero c)
  clears m hm := absurd hm (by simp)
  fresh _ _ := rfl

theorem internalPlaceCreature_spec (h : Linked s none none []) (kind : CreatureKind)
    (health healthMax : ℤ) :
    ∃ t, act s (.internalPlaceCreature kind health healthMax) = some t ∧
      Linked t none none [] := by
  refine ⟨_, rfl, ?_⟩
  have hnew := h.fresh s.size le_rfl
  set made : State := { size := s.size + 1
                        creature := Function.update s.creature s.size
                          { kind := kind, health := health, healthMax := healthMax } } with hmade
  have hold : ∀ x, x ≠ s.size → (takeReference made s.size).creature x = s.creature x := by
    intro x hx
    rw [takeReference, State.creature_modify_of_ne hx, hmade]
    exact Function.update_of_ne hx ..
  have hself : (takeReference made s.size).creature s.size =
      { kind := kind, health := health, healthMax := healthMax, referenceCounter := 1,
        otherReferences := 1 } := by
    simp [takeReference, hmade]
  refine ⟨h.agrees.congr (fun x => ?_) (fun x => ?_) (fun x _ => ?_), fun x => ?_, fun x hx => ?_,
    fun x hx => ?_, fun x hx => absurd hx (by simp), fun x hx => ?_⟩
  · unfold Gone
    rcases eq_or_ne x s.size with rfl | hne
    · rw [hself, hnew]
    · rw [hold x hne]
  · rcases eq_or_ne x s.size with rfl | hne
    · rw [hself, hnew]
    · rw [hold x hne]
  · rcases eq_or_ne x s.size with rfl | hne
    · rw [hself, hnew]
    · rw [hold x hne]
  · rcases eq_or_ne x s.size with rfl | hne
    · simp [hself]
    · simp only [hold x hne]
      exact h.counted x
  · rcases eq_or_ne x s.size with rfl | hne
    · rw [hself] at hx
      exact Bool.noConfusion hx
    · rw [hold x hne] at hx ⊢
      exact h.deleted x hx
  · rcases eq_or_ne x s.size with rfl | hne
    · simp [hself]
    · have hlt : x < s.size + 1 := hx.1
      rw [hold x hne]
      refine h.placed x ⟨lt_of_le_of_ne (Nat.lt_succ_iff.mp hlt) hne, ?_⟩
      rw [← hold x hne]
      exact hx.2
  · have hle : s.size + 1 ≤ x := hx
    rw [hold x (by omega)]
    exact h.fresh x (by omega)

theorem giveReferenceBack_spec (h : Linked s none none [])
    (hc : Enabled s (.giveReferenceBack c)) :
    ∃ t, act s (.giveReferenceBack c) = some t ∧ Linked t none none [] := by
  obtain ⟨hex, hothers⟩ := hc
  set f : Creature → Creature := fun x =>
    { x with otherReferences := x.otherReferences - 1 } with hf
  have howed : Linked (s.modify c f) none (some c) [] ∧ Shrinks s (s.modify c f) := by
    refine h.recount hex (fun _ => rfl) (fun _ => rfl) (fun _ => rfl) (fun _ => rfl)
      (fun hx => ?_) (fun x hx => by simp [Ne.symm hx]) ?_
    · have hplaced : s.Placed c := hx.resolve_right (by simp)
      rw [if_pos hplaced] at hothers
      simp only [hf]
      omega
    · have : 1 ≤ (s.creature c).otherReferences := by
        split at hothers <;> omega
      simp [hf]
      omega
  have hex' : (s.modify c f).Exists c := ⟨hex.1, by simpa [hf] using hex.2⟩
  obtain ⟨t, ht, hlinked, -⟩ := decrementReferenceCounter_spec howed.1 hex'
  exact ⟨t, ht, hlinked⟩

/-- Every enabled action returns, in a state where the relation holds again. -/
theorem act_spec (h : Linked s none none []) (a : Action) (ha : Enabled s a) :
    ∃ t, act s a = some t ∧ Linked t none none [] := by
  cases a with
  | internalPlaceCreature kind health healthMax =>
    exact internalPlaceCreature_spec h kind health healthMax
  | addCreatureCheck c => exact ⟨_, rfl, (addCreatureCheck_spec h (h.exists_of_placed ha)).1⟩
  | leaveCheckList c =>
    exact ⟨_, rfl, (setInCheckCreaturesVector_spec h ha false).1⟩
  | takeReference c => exact ⟨_, rfl, (takeReference_spec h ha).1⟩
  | giveReferenceBack c => exact giveReferenceBack_spec h ha
  | changeHealth c healthChange => exact ⟨_, rfl, (changeHealth_spec h ha healthChange).1⟩
  | setMaster c newMaster =>
    obtain ⟨t, ht, hlinked, -⟩ := setMaster_spec newMaster h ha.1 fun m hm => (ha.2 m hm).1
    exact ⟨t, ht, hlinked⟩
  | convinceCreature c convincer => exact convinceCreature_spec h ha.1 ha.2.1
  | onDeath c droppedCorpse => exact onDeath_spec h ha droppedCorpse
  | removeCreature c => exact removeCreature_spec h ha
  | onCreatureMove c newPos positions => exact onCreatureMove_spec h ha newPos positions

/-- What a list of summons says: it has the creatures that point back, each once, and each of
those is kept by one reference more than the others hold. -/
def Agree (s : State) : Prop :=
  ∀ c m, (c ∈ (s.creature m).summons ↔ (s.creature c).master = some m) ∧
    ((s.creature c).master = some m → (s.creature m).summons.count c = 1) ∧
    (s.creature c).referenceCounter = (s.creature c).otherReferences +
      (if (s.creature c).master = none then 0 else 1)

theorem Linked.agree (h : Linked s none none []) : Agree s := by
  intro c m
  refine ⟨?_, h.agrees.count_eq_one List.not_mem_nil, ?_⟩
  · by_cases hdel : (s.creature m).isDeleted = true
    · rw [(h.deleted m hdel).2.2]
      refine iff_of_false List.not_mem_nil fun hc => ?_
      exact h.agrees.not_gone List.not_mem_nil hc (Or.inl hdel)
    · have hgone : ¬ Gone s none m := by simpa [Gone] using hdel
      exact h.agrees.mem_many m hgone c
  · simpa using h.counted c

/-- **Summons and masters agree** in every state of every run, and every action returns. -/
theorem summons_agree (as : List Action) :
    Library.Run.Always step (fun s => Agree s ∧ ∀ a, Enabled s a → (step s a).isSome)
      State.start as := by
  refine Library.Run.always_of_returns (I := fun s => Linked s none none []) (fun s a t ht => ?_)
    (fun s a hs ha => ?_) (fun s hs => hs.agree) as State.start start_linked
  · by_contra ha
    rw [step, if_neg ha] at ht
    exact Option.some_ne_none t ht.symm
  · rw [step, if_pos ha]
    exact act_spec hs a ha

end TibiaServer.World.Summons
