import Mathlib.Data.List.InsertIdx
import TibiaServer.World.CreatureChecks
/-!
# Turns

Ten passes in a row go through each list once.  A creature that has something to do all the time
stays in its list meanwhile, and behind or ahead of the place the pass has reached, so it has
exactly one turn.
-/

namespace TibiaServer.World.CreatureChecks

open Library.Run

variable {s t u : State} {c x : CreatureId} {i j : ListIndex} {k : ℕ} {a : Action}

/-! ## The pass -/

/-- The pass is inside its list, and the next pass is for the next list. -/
structure PassIn (s : State) : Prop where
  place_le : ∀ i k, s.pass = some (i, k) → k ≤ (s.checkCreatureLists i).length
  next : ∀ i k, s.pass = some (i, k) → s.nextIndex = i + 1

/-- The lists only grow at their ends, and the pass stays where it is. -/
structure Grows (s t : State) : Prop where
  pass : t.pass = s.pass
  nextIndex : t.nextIndex = s.nextIndex
  lists : ∀ i, s.checkCreatureLists i <+: t.checkCreatureLists i

theorem Touches.grows (h : Touches c s t) : Grows s t := ⟨h.pass, h.nextIndex, h.lists⟩

theorem Grows.passIn (h : Grows s t) (hs : PassIn s) : PassIn t := by
  refine ⟨fun i k hp => ?_, fun i k hp => ?_⟩
  · rw [h.pass] at hp
    exact (hs.place_le i k hp).trans (h.lists i).length_le
  · rw [h.pass] at hp
    rw [h.nextIndex]
    exact hs.next i k hp

theorem placeCreature_grows (s : State) (kind : CreatureKind) (health healthMax : ℤ)
    (list : ListIndex) : Grows s (placeCreature s kind health healthMax list) := by
  have htouch := addCreatureCheck_touches { s with
    size := s.size + 1
    creature := Function.update s.creature s.size
      { kind := kind, health := health, healthMax := healthMax
        referenceCounter := 1 } } s.size list
  exact ⟨htouch.pass, htouch.nextIndex, htouch.lists⟩

/-- The actions that are neither part of a pass nor begin or end one. -/
def Action.Outside : Action → Prop
  | .checkCreatures | .visit | .cleanup => False
  | _ => True

theorem act_grows (s : State) (ha : a.Outside) : Grows s (act s a) := by
  cases a with
  | placeCreature kind health healthMax list =>
    exact placeCreature_grows s kind health healthMax list
  | changeHealth c healthChange list => exact (changeHealth_touches s c healthChange list).grows
  | setIdle c idle list => exact (setIdle_touches s c idle list).grows
  | removeCreature c => exact (removeCreature_touches s c).grows
  | restoreHealth c health => exact ⟨rfl, rfl, fun _ => List.prefix_refl _⟩
  | takeReference c => exact ⟨rfl, rfl, fun _ => List.prefix_refl _⟩
  | giveReferenceBack c => exact ⟨rfl, rfl, fun _ => List.prefix_refl _⟩
  | checkCreatures => exact ha.elim
  | visit => exact ha.elim
  | cleanup => exact ha.elim

theorem calls_of_outside (s : State) (ha : a.Outside) : calls s a = [] := by
  cases a <;> first | rfl | exact ha.elim

/-! ## The invariant -/

structure Kept (s : State) : Prop where
  listed : Listed s
  due : DueListed s
  passIn : PassIn s

theorem start_kept : Kept {} where
  listed := ⟨fun _ => List.nodup_nil, fun _ _ _ h => absurd h List.not_mem_nil, by simp,
    fun c => by simp [State.Placed], by simp, fun _ _ => rfl⟩
  due c hc := absurd hc.1 (Nat.not_lt_zero c)
  passIn := ⟨by simp, by simp⟩

theorem visit_eq (hpass : s.pass = some (i, k)) (hc : (s.checkCreatureLists i)[k]? = some c) :
    act s .visit = visit s i k c := by
  have hcurrent : current s = some c := by
    unfold current
    rw [hpass]
    exact hc
  unfold act
  rw [hpass, hcurrent]

/-- The pass and the entry that an enabled visit is about. -/
theorem exists_of_current (h : current s ≠ none) :
    ∃ i k c, s.pass = some (i, k) ∧ (s.checkCreatureLists i)[k]? = some c := by
  obtain ⟨c, hc⟩ := Option.ne_none_iff_exists'.mp h
  unfold current at hc
  obtain ⟨⟨i, k⟩, hpass, hget⟩ := Option.bind_eq_some_iff.mp hc
  exact ⟨i, k, c, hpass, hget⟩

theorem Listed.lt_size (h : Listed s) (hc : c ∈ s.checkCreatureLists i) : c < s.size := by
  by_contra hsize
  have hflag := (h.flag c).mpr ⟨i, hc⟩
  rw [h.fresh c (Nat.not_lt.mp hsize)] at hflag
  exact Bool.noConfusion hflag

theorem dropEntry_list (s : State) (i : ListIndex) (k : ℕ) (c : CreatureId) :
    (dropEntry s i k c).checkCreatureLists i = (s.checkCreatureLists i).eraseIdx k :=
  State.checkCreatureLists_setList_self ..

theorem dropEntry_list_of_ne (hj : j ≠ i) :
    (dropEntry s i k c).checkCreatureLists j = s.checkCreatureLists j :=
  State.checkCreatureLists_setList_of_ne hj

theorem dropEntry_kept (h : Kept s) (hpass : s.pass = some (i, k))
    (hc : (s.checkCreatureLists i)[k]? = some c) (hcheck : (s.creature c).creatureCheck = false) :
    Kept (dropEntry s i k c) := by
  obtain ⟨hk, -⟩ := List.getElem?_eq_some_iff.mp hc
  refine ⟨h.listed.leave hc, ?_, fun j m hp => ?_, fun j m hp => h.passIn.next j m hp⟩
  · have honly : OnlyAt c s (dropEntry s i k c) :=
      ⟨rfl, fun x hx => by rw [dropEntry_creature, State.creature_modify_of_ne hx]⟩
    refine h.due.onlyAt honly fun hawake => ?_
    rw [dropEntry_creature, State.creature_modify_self] at hawake
    have hdue := h.due c ⟨h.listed.lt_size (List.mem_of_getElem? hc), hawake⟩
    rw [hdue.2] at hcheck
    exact Bool.noConfusion hcheck
  · have hp' : s.pass = some (j, m) := hp
    rw [hpass] at hp'
    obtain ⟨rfl, rfl⟩ : i = j ∧ k = m := by simpa using hp'
    rw [dropEntry_list, List.length_eraseIdx, if_pos hk]
    omega

theorem visit_kept (h : Kept s) (hpass : s.pass = some (i, k))
    (hc : (s.checkCreatureLists i)[k]? = some c) : Kept (visit s i k c) := by
  obtain ⟨hk, -⟩ := List.getElem?_eq_some_iff.mp hc
  have hnext := h.passIn.next i k hpass
  unfold visit
  split
  · refine ⟨⟨h.listed.nodup, h.listed.unique, h.listed.flag, h.listed.counted, h.listed.deleted,
      h.listed.fresh⟩, h.due, fun j m hp => ?_, fun j m hp => ?_⟩
    · obtain ⟨rfl, rfl⟩ : i = j ∧ k + 1 = m := by simpa using hp
      exact hk
    · obtain ⟨rfl, rfl⟩ : i = j ∧ k + 1 = m := by simpa using hp
      exact hnext
  · rename_i hcheck
    exact dropEntry_kept h hpass hc (by simpa using hcheck)

/-- What a field change by the rest of the server keeps. -/
theorem act_listed (h : Listed s) (ha : Enabled s a) (hout : a.Outside) : Listed (act s a) := by
  cases a with
  | placeCreature kind health healthMax list =>
    exact placeCreature_listed h kind health healthMax list
  | changeHealth c healthChange list => exact changeHealth_listed h ha healthChange list
  | setIdle c idle list => exact setIdle_listed h ha.1 idle list
  | removeCreature c => exact removeCreature_listed h ha
  | restoreHealth c health =>
    unfold act
    exact h.modify ha.1.1 (fun _ => rfl) (fun _ => rfl) rfl (fun hdel => h.deleted c hdel)
  | takeReference c =>
    unfold act
    refine h.modify ha.1 (fun _ => rfl) (fun _ => rfl) ?_ (fun hdel => ?_)
    · dsimp only
      omega
    · have hdeleted : (s.creature c).isDeleted = true := hdel
      rw [ha.2] at hdeleted
      exact Bool.noConfusion hdeleted
  | giveReferenceBack c => exact giveReferenceBack_listed h ha
  | checkCreatures => exact hout.elim
  | visit => exact hout.elim
  | cleanup => exact hout.elim

theorem act_due (h : DueListed s) (ha : Enabled s a) (hout : a.Outside) : DueListed (act s a) := by
  cases a with
  | placeCreature kind health healthMax list => exact placeCreature_due h kind health healthMax list
  | changeHealth c healthChange list => exact changeHealth_due h ha.1 healthChange list
  | setIdle c idle list => exact setIdle_due h ha.1.1 ha.2 idle list
  | removeCreature c => exact removeCreature_due h c
  | restoreHealth c health =>
    -- a player has something to do at any health
    unfold act
    refine h.onlyAt (onlyAt_modify s c _) fun hawake => ?_
    rw [State.creature_modify_self] at hawake ⊢
    refine h c ⟨ha.1.1, hawake.1, Or.inl ?_⟩
    rw [ha.2]
    decide
  | takeReference c =>
    exact (sameDuties_modify (f := fun x => { x with
      referenceCounter := x.referenceCounter + 1, otherReferences := x.otherReferences + 1 })
      (fun _ => Iff.rfl) (fun _ => Iff.rfl) s c).dueListed h
  | giveReferenceBack c =>
    exact (decrementReferenceCounter_sameDuties _ c).dueListed
      ((sameDuties_modify (f := fun x => { x with otherReferences := x.otherReferences - 1 })
        (fun _ => Iff.rfl) (fun _ => Iff.rfl) s c).dueListed h)
  | checkCreatures => exact hout.elim
  | visit => exact hout.elim
  | cleanup => exact hout.elim

theorem act_kept (h : Kept s) (ha : Enabled s a) : Kept (act s a) := by
  by_cases hout : a.Outside
  · exact ⟨act_listed h.listed ha hout, act_due h.due ha hout, (act_grows s hout).passIn h.passIn⟩
  · cases a with
    | checkCreatures =>
      refine ⟨⟨h.listed.nodup, h.listed.unique, h.listed.flag, h.listed.counted,
        h.listed.deleted, h.listed.fresh⟩, h.due, fun i k hp => ?_, fun i k hp => ?_⟩
      · obtain ⟨-, rfl⟩ : s.nextIndex = i ∧ 0 = k := by simpa [act, checkCreatures] using hp
        exact Nat.zero_le _
      · obtain ⟨rfl, -⟩ : s.nextIndex = i ∧ 0 = k := by simpa [act, checkCreatures] using hp
        rfl
    | visit =>
      obtain ⟨i, k, c, hpass, hc⟩ := exists_of_current ha
      rw [visit_eq hpass hc]
      exact visit_kept h hpass hc
    | cleanup =>
      have hlisted := cleanup_listed h.listed
      refine ⟨⟨hlisted.nodup, hlisted.unique, hlisted.flag, hlisted.counted, hlisted.deleted,
        hlisted.fresh⟩, ?_, by simp [act], by simp [act]⟩
      exact (foldl_decrement_sameDuties s.ToReleaseCreatures s).dueListed h.due
    | _ => exact (hout trivial).elim

theorem step_kept (h : Kept s) (ht : step s a = some t) : Kept t := by
  unfold step at ht
  split at ht
  · exact Option.some.inj ht ▸ act_kept h ‹_›
  · exact absurd ht (by simp)

/-! ## Turns in one step -/

/-- The calls made for `c`. -/
def turns (s : State) (a : Action) (c : CreatureId) : ℕ :=
  ((calls s a).filter fun call => call.1 = c).length

/-- The pass over list `j` has already gone past `c`. -/
def HadTurn (s : State) (j : ListIndex) (c : CreatureId) : Prop :=
  ∃ p ∈ s.pass, p.1 = j ∧ c ∈ (s.checkCreatureLists j).take p.2

/-- The action ends the pass over list `j`. -/
def Ends (s : State) (a : Action) (j : ListIndex) : Prop :=
  a = .cleanup ∧ ∃ p ∈ s.pass, p.1 = j

instance : Decidable (HadTurn s j c) := inferInstanceAs (Decidable (∃ p ∈ s.pass, _))

instance : Decidable (Ends s a j) := inferInstanceAs (Decidable (_ ∧ _))

theorem hadTurn_iff (hpass : s.pass = some (i, k)) :
    HadTurn s j c ↔ i = j ∧ c ∈ (s.checkCreatureLists i).take k := by
  unfold HadTurn
  rw [hpass]
  simp only [Option.mem_def, Option.some_inj, exists_eq_left']
  refine and_congr_right ?_
  rintro rfl
  exact Iff.rfl

theorem not_hadTurn (hpass : s.pass = none) : ¬ HadTurn s j c := by
  unfold HadTurn
  simp [hpass]

/-- What is appended to the lists is ahead of the pass. -/
theorem Grows.hadTurn_iff (h : Grows s t) (hs : PassIn s) : HadTurn t j c ↔ HadTurn s j c := by
  unfold HadTurn
  rw [h.pass]
  refine exists_congr fun p => and_congr_right fun hp => and_congr_right ?_
  rintro rfl
  obtain ⟨rest, hrest⟩ := h.lists p.1
  rw [← hrest, List.take_append_of_le_length (hs.place_le p.1 p.2 hp)]

theorem turns_visit (hpass : s.pass = some (i, k)) (hx : (s.checkCreatureLists i)[k]? = some x) :
    turns s .visit c = if x = c ∧ (s.creature x).creatureCheck = true then 1 else 0 := by
  have hcurrent : current s = some x := by
    unfold current
    rw [hpass]
    exact hx
  unfold turns calls
  rw [hcurrent]
  dsimp only
  by_cases hcheck : (s.creature x).creatureCheck = true
  · rw [if_pos hcheck]
    by_cases hxc : x = c
    · subst hxc
      simp [hcheck]
    · simp [hxc]
  · simp [hcheck]

/-- One visit: the creature whose entry it is has its turn now, for the others nothing changes. -/
theorem visit_turns (h : Kept s) (hdue : Due s c) (hj : c ∈ s.checkCreatureLists j)
    (hpass : s.pass = some (i, k)) (hx : (s.checkCreatureLists i)[k]? = some x) :
    c ∈ (visit s i k x).checkCreatureLists j ∧
      (HadTurn (visit s i k x) j c ↔ HadTurn s j c ∨ x = c) ∧ (x = c → ¬ HadTurn s j c) := by
  obtain ⟨hk, hget⟩ := List.getElem?_eq_some_iff.mp hx
  have hchecked := h.due c hdue
  have hnodup := h.listed.nodup i
  have hin := List.mem_of_getElem? hx
  have hnot : x = c → ¬ HadTurn s j c := by
    rintro rfl hhad
    obtain ⟨rfl, hmem⟩ := (hadTurn_iff hpass).mp hhad
    obtain ⟨m, hm, hget'⟩ := List.mem_take_iff_getElem.mp hmem
    have heq := (hnodup.getElem_inj_iff).mp (hget'.trans hget.symm)
    omega
  unfold visit
  by_cases hcheck : (s.creature x).creatureCheck = true
  · rw [if_pos hcheck]
    refine ⟨hj, ?_, hnot⟩
    rw [hadTurn_iff (s := { s with pass := some (i, k + 1) }) rfl, hadTurn_iff hpass]
    dsimp only
    rw [List.take_add_one, hx]
    simp only [Option.toList_some, List.mem_append, List.mem_singleton]
    constructor
    · rintro ⟨rfl, hc | rfl⟩
      · exact Or.inl ⟨rfl, hc⟩
      · exact Or.inr rfl
    · rintro (⟨rfl, hc⟩ | rfl)
      · exact ⟨rfl, Or.inl hc⟩
      · exact ⟨h.listed.unique x i j hin hj, Or.inr rfl⟩
  · have hne : x ≠ c := by
      rintro rfl
      exact hcheck hchecked.2
    have herase : (s.checkCreatureLists i).eraseIdx k = (s.checkCreatureLists i).erase x := by
      rw [← hget]
      exact (List.Nodup.erase_getElem hnodup k hk).symm
    rw [if_neg hcheck]
    refine ⟨?_, ?_, hnot⟩
    · by_cases hji : j = i
      · subst hji
        rw [dropEntry_list, herase]
        exact (List.mem_erase_of_ne (Ne.symm hne)).mpr hj
      · rw [dropEntry_list_of_ne hji]
        exact hj
    · have hpass' : (dropEntry s i k x).pass = some (i, k) := hpass
      rw [hadTurn_iff hpass', hadTurn_iff hpass, dropEntry_list, or_iff_left hne,
        List.take_eraseIdx_eq_take_of_le _ _ _ le_rfl]

/-- **One step.**  The turns of `c` so far are the ends of passes over its list, but for the pass
that is going on. -/
theorem step_turns (h : Kept s) (ha : Enabled s a) (hdue : Due s c)
    (hj : c ∈ s.checkCreatureLists j) :
    c ∈ (act s a).checkCreatureLists j ∧
      turns s a c + (if HadTurn s j c then 1 else 0) =
        (if Ends s a j then 1 else 0) + (if HadTurn (act s a) j c then 1 else 0) := by
  by_cases hout : a.Outside
  · have hgrows := act_grows s hout
    have hends : ¬ Ends s a j := by
      rintro ⟨rfl, -⟩
      exact hout
    have hturns : turns s a c = 0 := by
      unfold turns
      rw [calls_of_outside s hout]
      rfl
    refine ⟨(hgrows.lists j).subset hj, ?_⟩
    simp only [hturns, hends, if_false, hgrows.hadTurn_iff h.passIn]
  · cases a with
    | checkCreatures =>
      have hnone : s.pass = none := ha
      have hends : ¬ Ends s .checkCreatures j := by
        rintro ⟨h1, -⟩
        exact absurd h1 (by decide)
      have hhad : ¬ HadTurn (act s .checkCreatures) j c := by
        rw [hadTurn_iff (s := act s .checkCreatures) rfl]
        simp
      refine ⟨hj, ?_⟩
      simp [turns, calls, hends, hhad, not_hadTurn hnone]
    | visit =>
      obtain ⟨i, k, x, hpass, hx⟩ := exists_of_current ha
      obtain ⟨hmem, hhad, hnot⟩ := visit_turns h hdue hj hpass hx
      have hends : ¬ Ends s .visit j := by
        rintro ⟨h1, -⟩
        exact absurd h1 (by decide)
      rw [visit_eq hpass hx, turns_visit hpass hx]
      refine ⟨hmem, ?_⟩
      by_cases hxc : x = c
      · subst hxc
        have hcheck := (h.due x hdue).2
        simp [hcheck, hends, hhad, hnot rfl]
      · simp [hxc, hends, hhad]
    | cleanup =>
      have hlists : (act s .cleanup).checkCreatureLists = s.checkCreatureLists :=
        (foldl_decrement_lists s.ToReleaseCreatures s).1
      have hhad' : ¬ HadTurn (act s .cleanup) j c := not_hadTurn (s := act s .cleanup) rfl
      obtain ⟨hpass, hend⟩ := ha
      obtain ⟨⟨i, k⟩, hpass⟩ := Option.ne_none_iff_exists'.mp hpass
      have hlength : (s.checkCreatureLists i).length ≤ k := by
        unfold current at hend
        rw [hpass] at hend
        exact List.getElem?_eq_none_iff.mp hend
      have hends : Ends s .cleanup j ↔ i = j := by
        unfold Ends
        simp [hpass]
      have hhad : HadTurn s j c ↔ i = j := by
        rw [hadTurn_iff hpass, List.take_of_length_le hlength]
        refine and_iff_left_of_imp ?_
        rintro rfl
        exact hj
      refine ⟨by rw [hlists]; exact hj, ?_⟩
      simp [turns, calls, hends, hhad, hhad']
    | _ => exact (hout trivial).elim

/-! ## The order of the passes -/

/-- The list that is being gone through, or the next one. -/
def base (s : State) : ListIndex :=
  match s.pass with
  | some p => p.1
  | none => s.nextIndex

theorem act_base (h : PassIn s) (ha : Enabled s a) :
    base (act s a) = if a = .cleanup then base s + 1 else base s := by
  by_cases hout : a.Outside
  · have hgrows := act_grows s hout
    have hne : a ≠ .cleanup := by
      rintro rfl
      exact hout
    rw [if_neg hne]
    unfold base
    rw [hgrows.pass, hgrows.nextIndex]
  · cases a with
    | checkCreatures =>
      have hnone : s.pass = none := ha
      simp [base, hnone, act, checkCreatures]
    | visit =>
      obtain ⟨i, k, c, hpass, hc⟩ := exists_of_current ha
      rw [visit_eq hpass hc, if_neg (by decide)]
      unfold visit
      split
      · simp [base, hpass]
      · have hpass' : (dropEntry s i k c).pass = some (i, k) := hpass
        simp [base, hpass, hpass']
    | cleanup =>
      obtain ⟨⟨i, k⟩, hpass⟩ := Option.ne_none_iff_exists'.mp ha.1
      have hnext : (act s .cleanup).nextIndex = s.nextIndex :=
        (foldl_decrement_lists s.ToReleaseCreatures s).2
      have hnone : (act s .cleanup).pass = none := rfl
      simp only [base, hnone, hnext, hpass, h.next i k hpass, if_true]
    | _ => exact (hout trivial).elim

theorem ends_cleanup (ha : Enabled s .cleanup) : Ends s .cleanup j ↔ base s = j := by
  obtain ⟨p, hpass⟩ := Option.ne_none_iff_exists'.mp ha.1
  simp [Ends, base, hpass]

/-! ## Turns in a run -/

/-- The calls that the actions of a run make. -/
def callsAlong (s : State) : List Action → List (CreatureId × Call)
  | [] => []
  | a :: as => calls s a ++ match step s a with
    | some t => callsAlong t as
    | none => []

theorem step_eq_some : step s a = some t ↔ Enabled s a ∧ act s a = t := by
  unfold step
  split
  · rename_i ha
    simp [ha]
  · rename_i ha
    simp [ha]

/-- The turns of a creature that stays due, and the passes over its list. -/
theorem run_turns : ∀ (as : List Action) (s : State), Kept s → c ∈ s.checkCreatureLists j →
    Always step (fun s => Due s c) s as → run step s as = some u →
    ((callsAlong s as).filter fun call => call.1 = c).length + (if HadTurn s j c then 1 else 0) =
      hits j (base s) (as.count .cleanup) + (if HadTurn u j c then 1 else 0) := by
  intro as
  induction as with
  | nil =>
    intro s _ _ _ hrun
    obtain rfl : s = u := by simpa using hrun
    simp [callsAlong, hits]
  | cons a as ih =>
    intro s h hj hdue hrun
    obtain ⟨t, ht, hrun⟩ := run_cons_eq_some.mp hrun
    obtain ⟨ha, rfl⟩ := step_eq_some.mp ht
    have hbase := act_base h.passIn ha
    obtain ⟨hj', hstep⟩ := step_turns h ha hdue.head hj
    have hrest := ih (act s a) (act_kept h ha) hj' (hdue.2 _ ht) hrun
    have hsplit : ((callsAlong s (a :: as)).filter fun call => call.1 = c).length =
        turns s a c + ((callsAlong (act s a) as).filter fun call => call.1 = c).length := by
      simp only [callsAlong, ht, List.filter_append, List.length_append, turns]
    have hhits : hits j (base s) ((a :: as).count .cleanup) =
        (if Ends s a j then 1 else 0) + hits j (base (act s a)) (as.count .cleanup) := by
      by_cases hcleanup : a = .cleanup
      · subst hcleanup
        rw [hbase, if_pos rfl, List.count_cons_self, hits]
        simp only [ends_cleanup ha]
      · rw [hbase, if_neg hcleanup, List.count_cons_of_ne hcleanup,
          if_neg (fun hends => hcleanup hends.1), Nat.zero_add]
    rw [hsplit, hhits]
    omega

/-- Each call of a run is made by a visit to the creature's entry. -/
theorem exists_visit_of_mem {call : CreatureId × Call} : ∀ (as : List Action) (s : State),
    call ∈ callsAlong s as → ∃ bs ds v, as = bs ++ .visit :: ds ∧ run step s bs = some v ∧
      current v = some call.1 ∧
      call.2 = if 0 < (v.creature call.1).health then .onThink else .onDeath := by
  intro as
  induction as with
  | nil => exact fun s h => absurd h List.not_mem_nil
  | cons a as ih =>
    intro s h
    rcases List.mem_append.mp h with hnow | hlater
    · refine ⟨[], as, s, ?_, rfl, ?_⟩
      · cases a <;> first | rfl | exact absurd hnow List.not_mem_nil
      · cases a with
        | visit =>
          unfold calls at hnow
          dsimp only at hnow
          split at hnow
          · rename_i c hcurrent
            split at hnow
            · obtain rfl := List.mem_singleton.mp hnow
              exact ⟨hcurrent, rfl⟩
            · exact absurd hnow List.not_mem_nil
          · exact absurd hnow List.not_mem_nil
        | _ => exact absurd hnow List.not_mem_nil
    · split at hlater
      · rename_i t ht
        obtain ⟨bs, ds, v, rfl, hv, hcall⟩ := ih t hlater
        exact ⟨a :: bs, ds, v, rfl, run_cons_eq_some.mpr ⟨t, ht, hv⟩, hcall⟩
      · exact absurd hlater List.not_mem_nil

/-! ## The claim -/

/-- At most one entry for each creature in all the lists, exactly for those with the flag, each
with one reference, and none for a creature that was deleted; whoever has something to do has an
entry with `creatureCheck` set. -/
structure ListsRight (s : State) : Prop where
  nodup : s.checked.Nodup
  flag : ∀ c, c ∈ s.checked ↔ (s.creature c).inCheckCreaturesVector = true
  references : ∀ c, (s.creature c).referenceCounter = (s.creature c).otherReferences +
    s.ToReleaseCreatures.count c + (if s.Placed c then 1 else 0) +
    (if c ∈ s.checked then 1 else 0)
  alive : ∀ c ∈ s.checked, (s.creature c).isDeleted = false
  due : ∀ c, Due s c → c ∈ s.checked ∧ (s.creature c).creatureCheck = true

/-- From `s` to `u` the ten lists are gone through, each in one pass. -/
structure Cycle (s : State) (as : List Action) (u : State) : Prop where
  run : run step s as = some u
  start : s.pass = none
  finish : u.pass = none
  passes : as.count .cleanup = EVENT_CREATURECOUNT

/-- Whoever has something to do throughout a cycle has exactly one turn in it, and it dies at
that turn if it has no health left then, and thinks otherwise. -/
def OneTurnEach (s : State) : Prop :=
  ∀ as u c, Cycle s as u → Always step (fun s => Due s c) s as →
    ∃ bs ds v, as = bs ++ .visit :: ds ∧ run step s bs = some v ∧ current v = some c ∧
      (callsAlong s as).filter (fun call => call.1 = c) =
        [(c, if 0 < (v.creature c).health then .onThink else .onDeath)]

theorem mem_checked : c ∈ s.checked ↔ ∃ i, c ∈ s.checkCreatureLists i := by
  simp [State.checked]

theorem Kept.listsRight (h : Kept s) : ListsRight s := by
  have hflag : ∀ c, c ∈ s.checked ↔ (s.creature c).inCheckCreaturesVector = true := by
    intro c
    rw [mem_checked, h.listed.flag]
  refine ⟨?_, hflag, fun c => ?_, fun c hc => ?_, fun c hc => ?_⟩
  · unfold State.checked
    rw [List.nodup_flatMap]
    refine ⟨fun i _ => h.listed.nodup i, ?_⟩
    refine (List.nodup_finRange _).imp fun {i j} hij => ?_
    intro c hi hj
    exact hij (h.listed.unique c i j hi hj)
  · rw [h.listed.counted]
    simp only [hflag]
  · by_contra hdel
    have hzero := h.listed.deleted c (by simpa using hdel)
    have hcount := h.listed.counted c
    rw [if_pos ((hflag c).mp hc)] at hcount
    split at hcount <;> omega
  · obtain ⟨hin, hcheck⟩ := h.due c hc
    exact ⟨(hflag c).mpr hin, hcheck⟩

theorem Kept.oneTurnEach (h : Kept s) : OneTurnEach s := by
  intro as u c hcycle hdue
  obtain ⟨j, hj⟩ := (h.listed.flag c).mp (h.due c hdue.head).1
  have hturns := run_turns as s h hj hdue hcycle.run
  rw [hcycle.passes, hits_cycle, if_neg (not_hadTurn hcycle.start),
    if_neg (not_hadTurn hcycle.finish)] at hturns
  obtain ⟨call, hcall⟩ := List.length_eq_one_iff.mp hturns
  have hmem : call ∈ (callsAlong s as).filter fun call => call.1 = c := by
    rw [hcall]
    exact List.mem_singleton_self call
  obtain ⟨hin, hc⟩ := List.mem_filter.mp hmem
  obtain rfl : call.1 = c := by simpa using hc
  obtain ⟨bs, ds, v, has, hv, hcurrent, hkind⟩ := exists_visit_of_mem as s hin
  refine ⟨bs, ds, v, has, hv, hcurrent, ?_⟩
  rw [hcall, ← hkind]

/-- **The lists are right in every state of every run**, and every cycle that begins there gives
each creature that has something to do all the while exactly one turn. -/
theorem creatures_have_turns (as : List Action) :
    Always step (fun s => ListsRight s ∧ OneTurnEach s) {} as :=
  always_of_invariant (I := Kept) (fun _ _ _ hs ht => step_kept hs ht)
    (fun _ hs => ⟨hs.listsRight, hs.oneTurnEach⟩) as {} start_kept

end TibiaServer.World.CreatureChecks
