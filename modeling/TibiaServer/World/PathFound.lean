import Mathlib.Data.Prod.Lex
import TibiaServer.World.PathSearch
/-!
# What the path search finds

Every node in use but the first has a parent that costs less (`Sound`), however
often nodes are opened again and get other parents.  So the parents form no
cycle, the way back from the square found ends at the creature, and the
directions lead along it (`walkBack_leadsTo`).  A round of the search uses up a
node of the pool, makes one cheaper or closes one, so that the search ends
(`search_ends`).
-/

namespace TibiaServer.World.PathSearch

open AStarNodes (key createOpenNode_eq_some getBestNode_spec)

variable {τ : Type} (w : Walker τ) (targetPos : Position) (fpp : FindPathParams)

/-- `q` is one of the eight squares around `p`, by the arithmetic of `uint16_t`. -/
def IsNeighbor (p q : Position) : Prop :=
  ∃ offset ∈ allNeighbors, q = .ofInt (p.getX + offset.1) (p.getY + offset.2) p.z

structure Sound (ns : AStarNodes) : Prop where
  curNode_pos : 0 < ns.curNode
  curNode_le : ns.curNode ≤ MAX_NODES
  start : ns.nodes 0 = ⟨none, 0, w.position.x, w.position.y⟩
  parent : ∀ i, i < ns.curNode → i ≠ 0 → ∃ j, j < ns.curNode ∧
    (ns.nodes i).parent = some j ∧ (ns.nodes j).f < (ns.nodes i).f ∧
    IsNeighbor (nodePos w (ns.nodes j)) (nodePos w (ns.nodes i))
  walkable : ∀ i, i < ns.curNode → i ≠ 0 → (w.canWalkTo (nodePos w (ns.nodes i))).isSome
  table : ∀ x y i, ns.nodeTable (key x y) = some i ↔
    i < ns.curNode ∧ (ns.nodes i).x = x ∧ (ns.nodes i).y = y

/-- Nodes are added only, and keep their squares. -/
structure Extends (ns ns' : AStarNodes) : Prop where
  curNode_le : ns.curNode ≤ ns'.curNode
  square : ∀ i, i < ns.curNode →
    (ns'.nodes i).x = (ns.nodes i).x ∧ (ns'.nodes i).y = (ns.nodes i).y

/-- A node more, or one that costs less. -/
def Progress (ns ns' : AStarNodes) : Prop :=
  ns.curNode < ns'.curNode ∨ ns.curNode = ns'.curNode ∧ ns'.totalCost < ns.totalCost

theorem Extends.refl (ns : AStarNodes) : Extends ns ns := ⟨le_rfl, fun _ _ => ⟨rfl, rfl⟩⟩

theorem Extends.trans {a b c : AStarNodes} (h : Extends a b) (h' : Extends b c) :
    Extends a c where
  curNode_le := h.curNode_le.trans h'.curNode_le
  square i hi := by
    have hi' := hi.trans_le h.curNode_le
    exact ⟨(h'.square i hi').1.trans (h.square i hi).1,
      (h'.square i hi').2.trans (h.square i hi).2⟩

theorem Progress.trans {a b c : AStarNodes} (h : Progress a b) (h' : Progress b c) :
    Progress a c := by
  unfold Progress at *
  omega

variable {w targetPos fpp} {ns ns' : AStarNodes} {n f : ℕ} {pos : Position}

theorem Extends.nodePos_eq (h : Extends ns ns') {i : ℕ} (hi : i < ns.curNode) :
    nodePos w (ns'.nodes i) = nodePos w (ns.nodes i) := by
  unfold nodePos
  rw [(h.square i hi).1, (h.square i hi).2]

theorem sound_init : Sound w (.init w.position.x w.position.y) where
  curNode_pos := Nat.one_pos
  curNode_le := Nat.succ_le_of_lt (by decide : 0 < MAX_NODES)
  start := rfl
  parent i hi h0 := absurd (Nat.lt_one_iff.mp hi) h0
  walkable i hi h0 := absurd (Nat.lt_one_iff.mp hi) h0
  table x y i := by
    simp only [AStarNodes.init, Nat.lt_one_iff, Option.ite_none_right_eq_some,
      AStarNodes.key_inj, Option.some.injEq]
    constructor
    · rintro ⟨⟨rfl, rfl⟩, rfl⟩
      exact ⟨rfl, rfl, rfl⟩
    · rintro ⟨rfl, rfl, rfl⟩
      exact ⟨⟨rfl, rfl⟩, rfl⟩

theorem Sound.nodePos_zero (h : Sound w ns) : nodePos w (ns.nodes 0) = w.position := by
  rw [h.start]
  rfl

/-! ## One neighbor -/

theorem allNeighbors_near : ∀ offset ∈ allNeighbors,
    -1 ≤ offset.1 ∧ offset.1 ≤ 1 ∧ -1 ≤ offset.2 ∧ offset.2 ≤ 1 ∧
      (offset.1 ≠ 0 ∨ offset.2 ≠ 0) := by
  decide

theorem isNeighbor_ne {p q : Position} (h : IsNeighbor p q) : q ≠ p := by
  obtain ⟨offset, hoffset, rfl⟩ := h
  intro heq
  have hx := congrArg Position.getX heq
  have hy := congrArg Position.getY heq
  rw [Position.getX_ofInt] at hx
  rw [Position.getY_ofInt] at hy
  have hpx := p.getX_bounds
  have hpy := p.getY_bounds
  have hnear := allNeighbors_near offset hoffset
  omega

theorem mapWalkCost_pos (node : AStarNode) (pos : Position) :
    0 < AStarNodes.getMapWalkCost node pos := by
  unfold AStarNodes.getMapWalkCost
  split_ifs <;> decide

/-- What the body of the loop over the neighbors can do. -/
theorem visit_cases (w : Walker τ) (targetPos : Position) (fpp : FindPathParams) (n f : ℕ)
    (pos : Position) (ns : AStarNodes) :
    visit w targetPos fpp n f pos ns = .skip ∨
    visit w targetPos fpp n f pos ns = .full ∨
    (∃ i newf, ns.getNodeByPosition pos.x pos.y = some i ∧ f < newf ∧
      newf < (ns.nodes i).f ∧
      visit w targetPos fpp n f pos ns = .take (ns.reparent i n newf)) ∨
    (∃ newf ns', ns.getNodeByPosition pos.x pos.y = none ∧ (w.canWalkTo pos).isSome ∧
      f < newf ∧ ns.createOpenNode n pos.x pos.y newf = some ns' ∧
      visit w targetPos fpp n f pos ns = .take ns') ∨
    (∃ i, ns.getNodeByPosition pos.x pos.y = some i ∧ w.getTile pos = none ∧
      visit w targetPos fpp n f pos ns = .nullTile) := by
  have hcost := mapWalkCost_pos (ns.nodes n) pos
  unfold visit
  dsimp only
  split_ifs
  · exact .inl rfl
  · exact .inl rfl
  · cases htable : ns.getNodeByPosition pos.x pos.y with
    | some i =>
      cases htile : w.getTile pos with
      | none => exact .inr (.inr (.inr (.inr ⟨i, rfl, rfl, rfl⟩)))
      | some tile =>
        dsimp only
        split_ifs with hcheaper
        · exact .inl rfl
        · exact .inr (.inr (.inl ⟨i, _, rfl, by omega, not_le.mp hcheaper, rfl⟩))
    | none =>
      cases htile : w.canWalkTo pos with
      | none => exact .inl rfl
      | some tile =>
        dsimp only
        cases hcreate : ns.createOpenNode n pos.x pos.y
            (f + AStarNodes.getMapWalkCost (ns.nodes n) pos + w.getTileWalkCost tile) with
        | none => exact .inr (.inl rfl)
        | some ns' =>
          exact .inr (.inr (.inr (.inl ⟨_, ns', rfl, rfl, by omega, hcreate, rfl⟩)))

theorem Sound.mem_table (h : Sound w ns) {i : ℕ}
    (hi : ns.getNodeByPosition pos.x pos.y = some i) (hz : pos.z = w.position.z) :
    i < ns.curNode ∧ nodePos w (ns.nodes i) = pos := by
  obtain ⟨hlt, hx, hy⟩ := (h.table pos.x pos.y i).mp hi
  refine ⟨hlt, ?_⟩
  unfold nodePos
  rw [hx, hy, ← hz]

/-- The tile of a node in use is there. -/
theorem Sound.getTile_isSome (h : Sound w ns) {i : ℕ} (hi : i < ns.curNode) :
    (w.getTile (nodePos w (ns.nodes i))).isSome := by
  by_cases h0 : i = 0
  · rw [h0, h.nodePos_zero]
    exact w.onTile
  · have hwalk := h.walkable i hi h0
    unfold Walker.canWalkTo at hwalk
    revert hwalk
    cases w.getTile (nodePos w (ns.nodes i)) with
    | some tile => exact fun _ => rfl
    | none => simp

/-- A cheaper parent: the node is not the first one, which costs nothing, and
not the new parent itself, which costs less. -/
theorem sound_reparent (h : Sound w ns) (hn : n < ns.curNode) {i newf : ℕ}
    (hi : i < ns.curNode) (hparent : (ns.nodes n).f < newf) (hcheaper : newf < (ns.nodes i).f)
    (hnear : IsNeighbor (nodePos w (ns.nodes n)) (nodePos w (ns.nodes i))) :
    Sound w (ns.reparent i n newf) ∧ (ns.reparent i n newf).nodes n = ns.nodes n ∧
      Extends ns (ns.reparent i n newf) ∧ Progress ns (ns.reparent i n newf) := by
  have hi0 : i ≠ 0 := by
    rintro rfl
    rw [h.start] at hcheaper
    exact Nat.not_lt_zero _ hcheaper
  have hni : n ≠ i := by
    rintro rfl
    omega
  have hsquare : ∀ k, ((ns.reparent i n newf).nodes k).x = (ns.nodes k).x ∧
      ((ns.reparent i n newf).nodes k).y = (ns.nodes k).y := by
    intro k
    rw [AStarNodes.reparent_nodes]
    by_cases hk : k = i
    · subst hk
      rw [Function.update_self]
      exact ⟨rfl, rfl⟩
    · rw [Function.update_of_ne hk]
      exact ⟨rfl, rfl⟩
  have hpos : ∀ k, nodePos w ((ns.reparent i n newf).nodes k) = nodePos w (ns.nodes k) := by
    intro k
    unfold nodePos
    rw [(hsquare k).1, (hsquare k).2]
  have hf : ∀ k, ((ns.reparent i n newf).nodes k).f ≤ (ns.nodes k).f := by
    intro k
    rw [AStarNodes.reparent_nodes]
    by_cases hk : k = i
    · subst hk
      rw [Function.update_self]
      exact hcheaper.le
    · rw [Function.update_of_ne hk]
  refine ⟨?_, ?_, ⟨by simp, fun k _ => hsquare k⟩, ?_⟩
  · refine { curNode_pos := ?_, curNode_le := ?_, start := ?_, parent := ?_, walkable := ?_, table := ?_ }
    · rw [AStarNodes.reparent_curNode]
      exact h.curNode_pos
    · rw [AStarNodes.reparent_curNode]
      exact h.curNode_le
    · rw [AStarNodes.reparent_nodes, Function.update_of_ne hi0.symm]
      exact h.start
    · intro k hk hk0
      rw [AStarNodes.reparent_curNode] at hk ⊢
      by_cases hki : k = i
      · subst hki
        refine ⟨n, hn, ?_, ?_, ?_⟩
        · rw [AStarNodes.reparent_nodes, Function.update_self]
        · rw [AStarNodes.reparent_nodes, Function.update_self, Function.update_of_ne hni]
          exact hparent
        · rw [hpos, hpos]
          exact hnear
      · obtain ⟨j, hj, hparentk, hless, hneark⟩ := h.parent k hk hk0
        have hsame : (ns.reparent i n newf).nodes k = ns.nodes k := by
          rw [AStarNodes.reparent_nodes, Function.update_of_ne hki]
        refine ⟨j, hj, ?_, ?_, ?_⟩
        · rw [hsame]
          exact hparentk
        · rw [hsame]
          exact (hf j).trans_lt hless
        · rw [hpos, hpos]
          exact hneark
    · intro k hk hk0
      rw [AStarNodes.reparent_curNode] at hk
      rw [hpos]
      exact h.walkable k hk hk0
    · intro x y k
      rw [AStarNodes.reparent_nodeTable, AStarNodes.reparent_curNode, (hsquare k).1,
        (hsquare k).2]
      exact h.table x y k
  · rw [AStarNodes.reparent_nodes, Function.update_of_ne hni]
  · exact .inr ⟨by simp, AStarNodes.totalCost_reparent hi hcheaper⟩

/-- A new node, for a square that had none. -/
theorem sound_createOpenNode (h : Sound w ns) (hn : n < ns.curNode) {newf : ℕ}
    (hparent : (ns.nodes n).f < newf) (hz : pos.z = w.position.z)
    (hnone : ns.getNodeByPosition pos.x pos.y = none) (hwalk : (w.canWalkTo pos).isSome)
    (hnear : IsNeighbor (nodePos w (ns.nodes n)) pos)
    (hcreate : ns.createOpenNode n pos.x pos.y newf = some ns') :
    Sound w ns' ∧ ns'.nodes n = ns.nodes n ∧ Extends ns ns' ∧ Progress ns ns' := by
  obtain ⟨hroom, rfl⟩ := createOpenNode_eq_some.mp hcreate
  have hold : ∀ k, k < ns.curNode →
      Function.update ns.nodes ns.curNode ⟨some n, newf, pos.x, pos.y⟩ k = ns.nodes k :=
    fun k hk => Function.update_of_ne hk.ne _ _
  have hpos : nodePos w ⟨some n, newf, pos.x, pos.y⟩ = pos := by
    unfold nodePos
    rw [← hz]
  refine ⟨?_, hold n hn, ⟨Nat.le_succ _, fun k hk => ?_⟩, .inl (Nat.lt_succ_self _)⟩
  · refine { curNode_pos := Nat.succ_pos _, curNode_le := hroom, start := ?_, parent := ?_, walkable := ?_, table := ?_ }
    · exact (hold 0 h.curNode_pos).trans h.start
    · intro k hk hk0
      dsimp only at hk ⊢
      by_cases hnew : k = ns.curNode
      · subst hnew
        rw [Function.update_self]
        refine ⟨n, Nat.lt_succ_of_lt hn, rfl, ?_, ?_⟩
        · rw [hold n hn]
          exact hparent
        · rw [hold n hn, hpos]
          exact hnear
      · have hk : k < ns.curNode := by omega
        obtain ⟨j, hj, hparentk, hless, hneark⟩ := h.parent k hk hk0
        refine ⟨j, Nat.lt_succ_of_lt hj, ?_, ?_, ?_⟩
        · rw [hold k hk]
          exact hparentk
        · rw [hold k hk, hold j hj]
          exact hless
        · rw [hold k hk, hold j hj]
          exact hneark
    · intro k hk hk0
      dsimp only at hk ⊢
      by_cases hnew : k = ns.curNode
      · subst hnew
        rw [Function.update_self, hpos]
        exact hwalk
      · have hk : k < ns.curNode := by omega
        rw [hold k hk]
        exact h.walkable k hk hk0
    · intro x y k
      dsimp only
      by_cases hkey : key x y = key pos.x pos.y
      · obtain ⟨rfl, rfl⟩ := AStarNodes.key_inj.mp hkey
        rw [Function.update_self]
        constructor
        · intro hk
          obtain rfl : ns.curNode = k := by simpa using hk
          rw [Function.update_self]
          exact ⟨Nat.lt_succ_self _, rfl, rfl⟩
        · rintro ⟨hk, hx, hy⟩
          by_cases hnew : k = ns.curNode
          · rw [hnew]
          · have hk : k < ns.curNode := by omega
            rw [hold k hk] at hx hy
            have htable := (h.table pos.x pos.y k).mpr ⟨hk, hx, hy⟩
            exact absurd (hnone.symm.trans htable) (by simp)
      · rw [Function.update_of_ne hkey, h.table]
        constructor
        · rintro ⟨hk, hx, hy⟩
          rw [hold k hk]
          exact ⟨Nat.lt_succ_of_lt hk, hx, hy⟩
        · rintro ⟨hk, hx, hy⟩
          by_cases hnew : k = ns.curNode
          · subst hnew
            rw [Function.update_self] at hx hy
            exact absurd (by rw [← hx, ← hy]) hkey
          · have hk : k < ns.curNode := by omega
            rw [hold k hk] at hx hy
            exact ⟨hk, hx, hy⟩
  · dsimp only
    rw [hold k hk]
    exact ⟨rfl, rfl⟩

theorem sound_closeNode (h : Sound w ns) (i : ℕ) : Sound w (ns.closeNode i) :=
  ⟨h.curNode_pos, h.curNode_le, h.start, h.parent, h.walkable, h.table⟩

theorem visit_sound (targetPos : Position) (fpp : FindPathParams) (h : Sound w ns)
    (hn : n < ns.curNode) (hf : (ns.nodes n).f = f) (hz : pos.z = w.position.z)
    (hnear : IsNeighbor (nodePos w (ns.nodes n)) pos) :
    visit w targetPos fpp n f pos ns = .skip ∨ visit w targetPos fpp n f pos ns = .full ∨
      ∃ ns', visit w targetPos fpp n f pos ns = .take ns' ∧
        Sound w ns' ∧ ns'.nodes n = ns.nodes n ∧ Extends ns ns' ∧ Progress ns ns' := by
  rcases visit_cases w targetPos fpp n f pos ns with hskip | hfull |
    ⟨i, newf, htable, hless, hcheaper, htake⟩ |
    ⟨newf, ns', htable, hwalk, hless, hcreate, htake⟩ | ⟨i, htable, htile, -⟩
  · exact .inl hskip
  · exact .inr (.inl hfull)
  · obtain ⟨hi, hpos⟩ := h.mem_table htable hz
    have hnear : IsNeighbor (nodePos w (ns.nodes n)) (nodePos w (ns.nodes i)) := by
      rw [hpos]
      exact hnear
    exact .inr (.inr ⟨_, htake, sound_reparent h hn hi (by omega) hcheaper hnear⟩)
  · exact .inr (.inr ⟨ns', htake,
      sound_createOpenNode h hn (by omega) hz htable hwalk hnear hcreate⟩)
  · obtain ⟨hi, hpos⟩ := h.mem_table htable hz
    have hthere := h.getTile_isSome hi
    rw [hpos, htile] at hthere
    exact absurd hthere (by simp)

theorem expand_sound (targetPos : Position) (fpp : FindPathParams) (found : Bool)
    (l : List Position) (h : Sound w ns) (hn : n < ns.curNode) (hf : (ns.nodes n).f = f)
    (hl : ∀ pos ∈ l, pos.z = w.position.z ∧ IsNeighbor (nodePos w (ns.nodes n)) pos) :
    expand w targetPos fpp found n f l ns ≠ .nullTile ∧
      ∀ ns', expand w targetPos fpp found n f l ns = .done ns' →
        Sound w ns' ∧ Extends ns ns' ∧ (ns' = ns ∨ Progress ns ns') := by
  induction l generalizing ns with
  | nil =>
    refine ⟨by simp [expand], fun ns' hdone => ?_⟩
    obtain rfl : ns = ns' := by simpa [expand] using hdone
    exact ⟨h, .refl ns, .inl rfl⟩
  | cons pos rest ih =>
    obtain ⟨hz, hnear⟩ := hl pos List.mem_cons_self
    have hrest : ∀ pos ∈ rest, pos.z = w.position.z ∧
        IsNeighbor (nodePos w (ns.nodes n)) pos :=
      fun pos hpos => hl pos (List.mem_cons_of_mem _ hpos)
    rcases visit_sound targetPos fpp h hn hf hz hnear with
      hskip | hfull | ⟨ns₁, htake, hsound, hkeep, hextends, hprogress⟩
    · simp only [expand, hskip]
      exact ih h hn hf hrest
    · cases found with
      | false => simp [expand, hfull]
      | true =>
        simp only [expand, hfull, if_true]
        refine ⟨by simp, fun ns' hdone => ?_⟩
        obtain rfl : ns = ns' := by simpa using hdone
        exact ⟨h, .refl ns, .inl rfl⟩
    · simp only [expand, htake]
      obtain ⟨hnull, hdone⟩ := ih hsound (hn.trans_le hextends.curNode_le)
        (by rw [hkeep]; exact hf) (by rw [hkeep]; exact hrest)
      refine ⟨hnull, fun ns' hns' => ?_⟩
      obtain ⟨hsound', hextends', hsame | hprogress'⟩ := hdone ns' hns'
      · exact ⟨hsound', hextends.trans hextends', .inr (hsame ▸ hprogress)⟩
      · exact ⟨hsound', hextends.trans hextends', .inr (hprogress.trans hprogress')⟩

/-! ## Rounds -/

variable (w targetPos fpp) in
/-- The condition accepts the square when nothing better is known. -/
def Accepts (pos : Position) : Prop :=
  (FrozenPathingConditionCall.call targetPos fpp w.isSightClear w.position pos 0).isSome

variable (w targetPos fpp) in
structure Inv (s : State) : Prop where
  nodes : Sound w s.nodes
  bestMatch : 0 ≤ s.bestMatch
  found : ∀ i endPos, s.found = some (i, endPos) → i < s.nodes.curNode ∧
    endPos = nodePos w (s.nodes.nodes i) ∧ Accepts w targetPos fpp endPos

/-- What the condition accepts, it accepts with nothing better known, and the
best match stays a distance. -/
theorem call_spec (targetPos : Position) (fpp : FindPathParams)
    (clear : Position → Position → Bool) {startPos pos : Position} {best best' : ℤ}
    (hbest : 0 ≤ best)
    (h : FrozenPathingConditionCall.call targetPos fpp clear startPos pos best = some best') :
    0 ≤ best' ∧
      (FrozenPathingConditionCall.call targetPos fpp clear startPos pos 0).isSome := by
  revert h
  unfold FrozenPathingConditionCall.call
  dsimp only
  split_ifs with hrange hsight hone hmin hmax hmin heq hbetter hpos <;>
    simp only [Option.some.injEq, Option.isSome_some, and_true,
      IsEmpty.forall_iff, Option.isSome_none, Bool.false_eq_true, and_false] <;> omega

theorem neighbors_near (w : Walker τ) (fpp : FindPathParams) (ns : AStarNodes) (n : ℕ) :
    ∀ pos ∈ neighbors w fpp ns n,
      pos.z = w.position.z ∧ IsNeighbor (nodePos w (ns.nodes n)) pos := by
  have hrows : ∀ d, ∀ offset ∈ dirNeighbors d, offset ∈ allNeighbors := by
    intro d
    cases d <;> decide
  intro pos hpos
  obtain ⟨offset, hoffset, rfl⟩ := List.mem_map.mp hpos
  refine ⟨rfl, offset, ?_, rfl⟩
  revert hoffset
  cases (ns.nodes n).parent with
  | none => exact id
  | some parent => exact fun hmem => hrows _ _ (List.mem_of_mem_take hmem)

/-- What a round uses up: the nodes left in the pool, the costs of those in use,
the nodes open. -/
def rank (ns : AStarNodes) : ℕ ×ₗ ℕ ×ₗ ℕ :=
  toLex (MAX_NODES - ns.curNode, toLex (ns.totalCost, ns.openCount))

theorem rank_closeNode_lt (h : Sound w ns') (hn : n < ns.curNode)
    (hopen : ns.openNodes n = true) (hprogress : ns' = ns ∨ Progress ns ns') :
    rank (ns'.closeNode n) < rank ns := by
  have hle := h.curNode_le
  rcases hprogress with rfl | hmore | ⟨heq, hcheaper⟩
  · apply Prod.Lex.toLex_lt_toLex.mpr
    refine .inr ⟨rfl, Prod.Lex.toLex_lt_toLex.mpr (.inr ⟨rfl, ?_⟩)⟩
    exact AStarNodes.openCount_closeNode hn hopen
  · apply Prod.Lex.toLex_lt_toLex.mpr
    refine .inl ?_
    change MAX_NODES - ns'.curNode < MAX_NODES - ns.curNode
    omega
  · apply Prod.Lex.toLex_lt_toLex.mpr
    refine .inr ⟨?_, Prod.Lex.toLex_lt_toLex.mpr (.inl hcheaper)⟩
    change MAX_NODES - ns'.curNode = MAX_NODES - ns.curNode
    omega

theorem record_nodes (s : State) (n : ℕ) (pos : Position) (accepted : Option ℤ) :
    (s.record n pos accepted).nodes = s.nodes := by
  cases accepted <;> rfl

theorem inv_record {s : State} (h : Inv w targetPos fpp s) (hn : n < s.nodes.curNode)
    {accepted : Option ℤ}
    (haccepted : FrozenPathingConditionCall.call targetPos fpp w.isSightClear w.position
      (nodePos w (s.nodes.nodes n)) s.bestMatch = accepted) :
    Inv w targetPos fpp (s.record n (nodePos w (s.nodes.nodes n)) accepted) := by
  cases accepted with
  | none => exact h
  | some best =>
    obtain ⟨hnonneg, haccepts⟩ := call_spec targetPos fpp _ h.bestMatch haccepted
    refine ⟨h.nodes, hnonneg, ?_⟩
    intro i endPos hfound
    obtain ⟨rfl, rfl⟩ := Prod.mk.inj (Option.some.inj hfound)
    exact ⟨hn, rfl, haccepts⟩

/-- A round keeps the invariant and uses something up, or is the last one. -/
theorem round_inv {s : State} (h : Inv w targetPos fpp s) :
    round w targetPos fpp s ≠ .nullTile ∧
      (∀ t, round w targetPos fpp s = .again t →
        Inv w targetPos fpp t ∧ rank t.nodes < rank s.nodes) ∧
      ∀ t, round w targetPos fpp s = .leave t → Inv w targetPos fpp t ∧ t.nodes = s.nodes := by
  unfold round
  by_cases hclosed : fpp.maxSearchDist = 0 ∧ s.nodes.closedNodes ≥ 100
  · rw [if_pos hclosed]
    exact ⟨by simp, by simp, fun t ht => by simpa [← Round.leave.inj ht] using h⟩
  · rw [if_neg hclosed]
    cases hbest : s.nodes.getBestNode with
    | none =>
      cases hfound : s.found with
      | none => exact ⟨by simp, by simp, by simp⟩
      | some found =>
        exact ⟨by simp, by simp, fun t ht => by
          simpa [← Round.leave.inj (by simpa using ht)] using h⟩
    | some n =>
      obtain ⟨hn, hopen⟩ := getBestNode_spec hbest
      dsimp only
      generalize haccepted : FrozenPathingConditionCall.call targetPos fpp w.isSightClear
        w.position (nodePos w (s.nodes.nodes n)) s.bestMatch = accepted
      have hinv := inv_record h hn haccepted
      have hnodes := record_nodes s n (nodePos w (s.nodes.nodes n)) accepted
      generalize s.record n (nodePos w (s.nodes.nodes n)) accepted = tried at hinv hnodes
      by_cases hbreak : accepted.isSome = true ∧ tried.bestMatch = 0
      · rw [if_pos hbreak]
        refine ⟨by simp, by simp, fun t ht => ?_⟩
        obtain rfl : tried = t := by simpa using ht
        exact ⟨hinv, hnodes⟩
      · rw [if_neg hbreak, hnodes]
        obtain ⟨hnull, hdone⟩ := expand_sound targetPos fpp tried.found.isSome
          (neighbors w fpp s.nodes n) h.nodes hn rfl (neighbors_near w fpp s.nodes n)
        revert hnull hdone
        cases expand w targetPos fpp tried.found.isSome n (s.nodes.nodes n).f
          (neighbors w fpp s.nodes n) s.nodes with
        | returnFalse => exact fun _ _ => ⟨by simp, by simp, by simp⟩
        | nullTile => exact fun hnull _ => absurd rfl hnull
        | done ns' =>
          intro _ hdone
          obtain ⟨hsound, hextends, hprogress⟩ := hdone ns' rfl
          refine ⟨by simp, fun t ht => ?_, by simp⟩
          obtain rfl : ({ tried with nodes := ns'.closeNode n } : State) = t := by
            simpa using ht
          refine ⟨⟨sound_closeNode hsound n, hinv.bestMatch, ?_⟩,
            rank_closeNode_lt hsound hn hopen hprogress⟩
          intro i endPos hfound
          obtain ⟨hi, hend, haccepts⟩ := hinv.found i endPos hfound
          rw [hnodes] at hi hend
          refine ⟨hi.trans_le hextends.curNode_le, ?_, haccepts⟩
          exact hend.trans (hextends.nodePos_eq hi).symm

/-! ## The way back -/

/-- Squares between which a step of one square would wrap around at the edge of
the coordinates are not both squares that the creature may stand on. -/
def NoSeam (w : Walker τ) : Prop :=
  ∀ p q, (p = w.position ∨ (w.canWalkTo p).isSome) →
    (q = w.position ∨ (w.canWalkTo q).isSome) → IsNeighbor p q →
    Position.areInRange 1 1 0 p q = true

/-- The directions lead, one adjacent square at a time, over squares that
`canWalkTo` accepts. -/
inductive LeadsTo (w : Walker τ) : Position → List Direction → Position → Prop
  | here (p : Position) : LeadsTo w p [] p
  | step {p q : Position} {d : Direction} {ds : List Direction}
      (hadjacent : Position.areInRange 1 1 0 p (getNextPosition d p) = true)
      (hwalk : (w.canWalkTo (getNextPosition d p)).isSome)
      (hrest : LeadsTo w (getNextPosition d p) ds q) : LeadsTo w p (d :: ds) q

theorem LeadsTo.snoc {p q : Position} {d : Direction} {ds : List Direction}
    (h : LeadsTo w p ds q) (hadjacent : Position.areInRange 1 1 0 q (getNextPosition d q) = true)
    (hwalk : (w.canWalkTo (getNextPosition d q)).isSome) :
    LeadsTo w p (ds ++ [d]) (getNextPosition d q) := by
  induction h with
  | here p => exact .step hadjacent hwalk (.here _)
  | step hadjacent' hwalk' _ ih => exact .step hadjacent' hwalk' (ih hadjacent hwalk)

/-- Coordinates at most one apart, with the offset that tells which way. -/
theorem offset_cases {x x' : UInt16} (h : |(x.toNat : ℤ) - x'.toNat| ≤ 1) :
    ((x.toNat : ℤ) - x'.toNat = -1 ∧ x' = x + 1) ∨ ((x.toNat : ℤ) - x'.toNat = 0 ∧ x' = x) ∨
      ((x.toNat : ℤ) - x'.toNat = 1 ∧ x' = x - 1) := by
  have hx := x.toNat_lt
  have hx' := x'.toNat_lt
  have hnear := abs_le.mp h
  simp only [← UInt16.toNat_inj, UInt16.toNat_add, UInt16.toNat_sub, UInt16.toNat_one]
  omega

/-- The direction of an offset of one square is the direction of the step. -/
theorem stepDirection_spec {p q : Position} (hne : q ≠ p)
    (hrange : Position.areInRange 1 1 0 p q = true) :
    ∃ d, stepDirection (p.getOffsetX q) (p.getOffsetY q) = some d ∧ getNextPosition d p = q := by
  simp only [Position.areInRange, Bool.and_eq_true, decide_eq_true_eq] at hrange
  obtain ⟨⟨hdistX, hdistY⟩, hdistZ⟩ := hrange
  obtain ⟨px, py, pz⟩ := p
  obtain ⟨qx, qy, qz⟩ := q
  have hX : |(px.toNat : ℤ) - qx.toNat| ≤ 1 := hdistX
  have hY : |(py.toNat : ℤ) - qy.toNat| ≤ 1 := hdistY
  have hz : qz = pz := by
    have hoff := abs_le.mp hdistZ
    simp only [Position.getOffsetZ, Position.getZ] at hoff
    exact UInt8.toNat_inj.mp (by omega)
  subst hz
  clear hdistX hdistY hdistZ
  simp only [Position.getOffsetX, Position.getOffsetY, Position.getX, Position.getY]
  rcases offset_cases hX with ⟨hdx, rfl⟩ | ⟨hdx, rfl⟩ | ⟨hdx, rfl⟩ <;>
    rcases offset_cases hY with ⟨hdy, rfl⟩ | ⟨hdy, rfl⟩ | ⟨hdy, rfl⟩ <;> rw [hdx, hdy]
  · exact ⟨.SOUTHEAST, rfl, rfl⟩
  · exact ⟨.EAST, rfl, rfl⟩
  · exact ⟨.NORTHEAST, rfl, rfl⟩
  · exact ⟨.SOUTH, rfl, rfl⟩
  · exact absurd rfl hne
  · exact ⟨.NORTH, rfl, rfl⟩
  · exact ⟨.SOUTHWEST, rfl, rfl⟩
  · exact ⟨.WEST, rfl, rfl⟩
  · exact ⟨.NORTHWEST, rfl, rfl⟩

/-- However the nodes were opened again, the way back from a node in use ends,
and what it pushes leads to the node. -/
theorem walkBack_leadsTo (h : Sound w ns) (i : ℕ) (hi : i < ns.curNode) :
    ∃ way : List Direction,
      (∀ fuel dirList, (ns.nodes i).f < fuel →
        walkBack w ns fuel (nodePos w (ns.nodes i)) (ns.nodes i).parent dirList =
          some (way ++ dirList)) ∧
      (NoSeam w → LeadsTo w w.position way (nodePos w (ns.nodes i))) := by
  -- on the cost of the node, which every parent undercuts
  induction hcost : (ns.nodes i).f using Nat.strong_induction_on generalizing i with
  | _ cost ih =>
    subst hcost
    by_cases hi0 : i = 0
    · subst hi0
      refine ⟨[], fun fuel dirList _ => ?_, fun _ => ?_⟩
      · rw [h.start]
        simp [walkBack]
      · rw [h.nodePos_zero]
        exact .here _
    · obtain ⟨j, hj, hparent, hless, hnear⟩ := h.parent i hi hi0
      obtain ⟨way, hback, hleads⟩ := ih _ hless j hj rfl
      refine ⟨way ++ (stepDirection
        ((nodePos w (ns.nodes j)).getOffsetX (nodePos w (ns.nodes i)))
        ((nodePos w (ns.nodes j)).getOffsetY (nodePos w (ns.nodes i)))).toList, ?_, ?_⟩
      · intro fuel dirList hfuel
        obtain ⟨fuel, rfl⟩ : ∃ k, fuel = k + 1 := ⟨fuel - 1, by omega⟩
        rw [hparent, walkBack, hback fuel _ (by omega), List.append_assoc]
      · intro hseam
        have hstand : ∀ k, k < ns.curNode → nodePos w (ns.nodes k) = w.position ∨
            (w.canWalkTo (nodePos w (ns.nodes k))).isSome := by
          intro k hk
          by_cases hk0 : k = 0
          · exact .inl (hk0 ▸ h.nodePos_zero)
          · exact .inr (h.walkable k hk hk0)
        have hrange := hseam _ _ (hstand j hj) (hstand i hi) hnear
        obtain ⟨d, hdir, hnext⟩ := stepDirection_spec (isNeighbor_ne hnear) hrange
        rw [hdir]
        have hsnoc := (hleads hseam).snoc (d := d) (hnext.symm ▸ hrange)
          (hnext.symm ▸ h.walkable i hi hi0)
        rw [hnext] at hsnoc
        exact hsnoc

/-- No node in use is its own ancestor. -/
theorem parent_acyclic (h : Sound w ns) {i : ℕ} (hi : i < ns.curNode) :
    ¬ Relation.TransGen (fun j i => (ns.nodes i).parent = some j) i i := by
  have hstep : ∀ i j, i < ns.curNode → (ns.nodes i).parent = some j →
      j < ns.curNode ∧ (ns.nodes j).f < (ns.nodes i).f := by
    intro i j hi hparent
    have hi0 : i ≠ 0 := by
      rintro rfl
      rw [h.start] at hparent
      exact absurd hparent (by simp)
    obtain ⟨j', hj', hparent', hless, -⟩ := h.parent i hi hi0
    obtain rfl : j' = j := Option.some.inj (hparent'.symm.trans hparent)
    exact ⟨hj', hless⟩
  have hdown : ∀ j, Relation.TransGen (fun j i => (ns.nodes i).parent = some j) j i →
      j < ns.curNode ∧ (ns.nodes j).f < (ns.nodes i).f := by
    intro j hj
    induction hj using Relation.TransGen.head_induction_on with
    | single hparent => exact hstep i _ hi hparent
    | head hparent _ ih =>
      obtain ⟨hlt, hless⟩ := hstep _ _ ih.1 hparent
      exact ⟨hlt, hless.trans ih.2⟩
  exact fun hcycle => lt_irrefl _ (hdown i hcycle).2

/-! ## The search -/

variable (w targetPos fpp) in
/-- The states that the outer loop comes to from its first round on. -/
inductive Reached : State → Prop
  | init : Reached (.init w)
  | again {s t : State} (hs : Reached s) (hround : round w targetPos fpp s = .again t) : Reached t
  | leave {s t : State} (hs : Reached s) (hround : round w targetPos fpp s = .leave t) : Reached t

theorem inv_init : Inv w targetPos fpp (.init w) :=
  ⟨sound_init, le_rfl, fun _ _ hfound => by simp [State.init] at hfound⟩

theorem Reached.inv {s : State} (h : Reached w targetPos fpp s) : Inv w targetPos fpp s := by
  induction h with
  | init => exact inv_init
  | again _ hround ih => exact ((round_inv ih).2.1 _ hround).1
  | leave _ hround ih => exact ((round_inv ih).2.2 _ hround).1

variable (w targetPos fpp) in
/-- What an answer promises: no null pointer was followed, and the directions
lead to a square that the condition accepts. -/
def Valid (answer : Answer) : Prop :=
  answer ≠ .nullTile ∧
    (NoSeam w → ∀ dirList, answer = .found dirList →
      ∃ endPos, LeadsTo w w.position dirList endPos ∧ Accepts w targetPos fpp endPos)

theorem search_ends (s : State) (h : Inv w targetPos fpp s) :
    ∃ answer rounds, (∀ fuel ≥ rounds, search w targetPos fpp fuel s = some answer) ∧
      Valid w targetPos fpp answer := by
  induction hrank : rank s.nodes using WellFoundedLT.induction generalizing s with
  | _ r ih =>
    subst hrank
    obtain ⟨hnull, hagain, hleave⟩ := round_inv h
    cases hround : round w targetPos fpp s with
    | nullTile => exact absurd hround hnull
    | returnFalse =>
      refine ⟨.notFound, 1, fun fuel hfuel => ?_, by simp [Valid]⟩
      obtain ⟨fuel, rfl⟩ : ∃ k, fuel = k + 1 := ⟨fuel - 1, by omega⟩
      rw [search, hround]
    | again t =>
      obtain ⟨ht, hless⟩ := hagain t hround
      obtain ⟨answer, rounds, hsearch, hvalid⟩ := ih _ hless t ht rfl
      refine ⟨answer, rounds + 1, fun fuel hfuel => ?_, hvalid⟩
      obtain ⟨fuel, rfl⟩ : ∃ k, fuel = k + 1 := ⟨fuel - 1, by omega⟩
      rw [search, hround]
      exact hsearch fuel (by omega)
    | leave t =>
      obtain ⟨ht, hnodes⟩ := hleave t hround
      cases hfound : t.found with
      | none =>
        refine ⟨.notFound, 1, fun fuel hfuel => ?_, by simp [Valid]⟩
        obtain ⟨fuel, rfl⟩ : ∃ k, fuel = k + 1 := ⟨fuel - 1, by omega⟩
        rw [search, hround]
        simp only [hfound]
      | some found =>
        obtain ⟨i, endPos⟩ := found
        obtain ⟨hi, rfl, haccepts⟩ := ht.found i endPos hfound
        obtain ⟨way, hback, hleads⟩ := walkBack_leadsTo ht.nodes i hi
        rw [hnodes] at hback hleads hi haccepts
        refine ⟨.found way, (s.nodes.nodes i).f + 2, fun fuel hfuel => ?_, ?_, ?_⟩
        · obtain ⟨fuel, rfl⟩ : ∃ k, fuel = k + 1 := ⟨fuel - 1, by omega⟩
          rw [search, hround]
          simp only [hfound, hnodes]
          rw [hback fuel [] (by omega), List.append_nil]
          rfl
        · simp
        · intro hseam dirList hdir
          obtain rfl := Answer.found.inj hdir
          exact ⟨_, hleads hseam, haccepts⟩

/-- The search ends on every map; no node ever becomes its own ancestor; and on
a map without a seam the directions of an answer lead over squares that the
creature can walk to, to a square that the condition accepts. -/
theorem getPathMatching_correct (w : Walker τ) (targetPos : Position) (fpp : FindPathParams) :
    (∃ answer rounds,
      (∀ fuel ≥ rounds, getPathMatching w targetPos fpp fuel = some answer) ∧
        Valid w targetPos fpp answer) ∧
      ∀ s, Reached w targetPos fpp s → ∀ i < s.nodes.curNode,
        ¬ Relation.TransGen (fun j i => (s.nodes.nodes i).parent = some j) i i :=
  ⟨search_ends (.init w) inv_init, fun _ hs _ hi => parent_acyclic hs.inv.nodes hi⟩

/-- A player on one of two squares that have tiles, with nothing in the way. -/
def onTwoSquares (position other : Position) : Walker Unit where
  getTile p := if p = position ∨ p = other then some () else none
  position := position
  getWalkCache _ := 2
  queryAdd _ := true
  hasTopVisibleCreature _ := false
  avoidsField _ := false
  blocksProjectile _ := false
  onTile := by rw [if_pos (.inl rfl)]; rfl

/-- The arguments of a walk up to an item: `getPathTo(pos, dirList, 0, 1, true, true)`. -/
def nextTo : FindPathParams where
  minTargetDist := 0
  maxTargetDist := 1

theorem onTwoSquares_noSeam : NoSeam (onTwoSquares ⟨100, 100, 7⟩ ⟨101, 100, 7⟩) := by
  have hsquares : ∀ p, (p = (⟨100, 100, 7⟩ : Position) ∨
      ((onTwoSquares ⟨100, 100, 7⟩ ⟨101, 100, 7⟩).canWalkTo p).isSome) →
      p = ⟨100, 100, 7⟩ ∨ p = ⟨101, 100, 7⟩ := by
    intro p hp
    by_contra hother
    rcases hp with hp | hp
    · exact hother (.inl hp)
    · revert hp
      simp [Walker.canWalkTo, onTwoSquares, hother]
  intro p q hp hq _
  rcases hsquares p hp with rfl | rfl <;> rcases hsquares q hq with rfl | rfl <;> decide

theorem getPathMatching_correct_onTwoSquares :
    NoSeam (onTwoSquares ⟨100, 100, 7⟩ ⟨101, 100, 7⟩) ∧ ∃ answer rounds,
      (∀ fuel ≥ rounds, getPathMatching (onTwoSquares ⟨100, 100, 7⟩ ⟨101, 100, 7⟩)
        ⟨102, 100, 7⟩ nextTo fuel = some answer) ∧
      Valid (onTwoSquares ⟨100, 100, 7⟩ ⟨101, 100, 7⟩) ⟨102, 100, 7⟩ nextTo answer :=
  ⟨onTwoSquares_noSeam, (getPathMatching_correct _ _ _).1⟩

/-- Across the edge of the coordinates, from (100, 65535) to (100, 0), no
direction is pushed: the answer is the empty list, which leads nowhere. -/
theorem seam_is_crossed :
    getPathMatching (onTwoSquares ⟨100, 65535, 7⟩ ⟨100, 0, 7⟩) ⟨100, 1, 7⟩ nextTo 3 =
      some (.found []) ∧
    ∀ endPos, LeadsTo (onTwoSquares ⟨100, 65535, 7⟩ ⟨100, 0, 7⟩) ⟨100, 65535, 7⟩ [] endPos →
      ¬ Accepts (onTwoSquares ⟨100, 65535, 7⟩ ⟨100, 0, 7⟩) ⟨100, 1, 7⟩ nextTo endPos := by
  refine ⟨by decide +kernel, fun endPos hleads => ?_⟩
  cases hleads
  unfold Accepts
  decide +kernel

end TibiaServer.World.PathSearch
