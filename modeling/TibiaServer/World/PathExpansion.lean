import TibiaServer.World.PathFound
/-!
# What an expansion does to the nodes

The expansion of a node leaves each of the others alone or makes it a child of that node
(`Grown`), and with room in the pool every neighbor in reach has a node afterwards that costs at
most a step more (`expand_reaches`).
-/

namespace TibiaServer.World.PathSearch

open AStarNodes (key createOpenNode_eq_some getBestNode_spec getMapWalkCost)

variable {τ : Type} (w : Walker τ) (targetPos : Position) (fpp : FindPathParams)

/-- One square apart in both coordinates. -/
def Diagonal (p q : Position) : Prop :=
  |(p.x.toNat : ℤ) - q.x.toNat| = 1 ∧ |(p.y.toNat : ℤ) - q.y.toNat| = 1

/-- The square passes the tests of the distance from the creature and from the target. -/
def InReach (pos : Position) : Prop :=
  ¬ (fpp.maxSearchDist ≠ 0 ∧ (w.position.getDistanceX pos > fpp.maxSearchDist ∨
      w.position.getDistanceY pos > fpp.maxSearchDist)) ∧
    ¬ (fpp.keepDistance &&
      !FrozenPathingConditionCall.isInRange targetPos fpp w.position pos) = true

variable {w targetPos fpp} {ns ns' : AStarNodes} {n f i : ℕ} {pos : Position} {tile : τ}

theorem canWalkTo_getTile (h : w.canWalkTo pos = some tile) : w.getTile pos = some tile := by
  unfold Walker.canWalkTo at h
  dsimp only at h
  split_ifs at h
  · exact h
  · revert h
    cases w.getTile pos with
    | none => exact fun h => h
    | some other =>
      dsimp only
      split_ifs
      · exact fun h => absurd h (by simp)
      · exact fun h => h

/-! ## The cost of a step -/

variable (w) in
/-- What a step from `node` to `pos` costs. -/
def stepCost (node : AStarNode) (pos : Position) (tile : τ) : ℕ :=
  getMapWalkCost node pos + w.getTileWalkCost tile

theorem stepCost_ge (node : AStarNode) (pos : Position) (tile : τ) :
    10 ≤ stepCost w node pos tile := by
  have hcost : 10 ≤ getMapWalkCost node pos := by
    unfold getMapWalkCost
    split_ifs <;> decide
  unfold stepCost
  omega

theorem mapWalkCost_diagonal {node : AStarNode} (h : Diagonal (nodePos w node) pos) :
    getMapWalkCost node pos = 25 := by
  unfold getMapWalkCost
  rw [if_pos]
  · rfl
  · exact h.1.trans h.2.symm

theorem mapWalkCost_straight {node : AStarNode}
    (h : |(node.x.toNat : ℤ) - pos.getX| ≠ |(node.y.toNat : ℤ) - pos.getY|) :
    getMapWalkCost node pos = 10 := by
  unfold getMapWalkCost
  rw [if_neg h]
  rfl

/-! ## One neighbor -/

/-- A square that is taken is in reach, at the cost of a step from the node expanded. -/
theorem visit_take (h : visit w targetPos fpp n f pos ns = .take ns') :
    InReach w targetPos fpp pos ∧ ∃ tile newf, w.getTile pos = some tile ∧
      newf = f + stepCost w (ns.nodes n) pos tile ∧
      ((∃ i, ns.getNodeByPosition pos.x pos.y = some i ∧ newf < (ns.nodes i).f ∧
          ns' = ns.reparent i n newf) ∨
        (ns.getNodeByPosition pos.x pos.y = none ∧ w.canWalkTo pos = some tile ∧
          ns.createOpenNode n pos.x pos.y newf = some ns')) := by
  unfold visit at h
  dsimp only at h
  split_ifs at h with hdist hrange
  refine ⟨⟨hdist, hrange⟩, ?_⟩
  cases htable : ns.getNodeByPosition pos.x pos.y with
  | some i =>
    rw [htable] at h
    cases htile : w.getTile pos with
    | none =>
      rw [htile] at h
      exact absurd h (by simp)
    | some tile =>
      rw [htile] at h
      dsimp only at h
      split_ifs at h with hcheaper
      refine ⟨tile, _, rfl, rfl, .inl ⟨i, rfl, ?_, ?_⟩⟩
      · unfold stepCost
        omega
      · unfold stepCost
        rw [← Nat.add_assoc]
        exact (Visit.take.inj h).symm
  | none =>
    rw [htable] at h
    cases htile : w.canWalkTo pos with
    | none =>
      rw [htile] at h
      exact absurd h (by simp)
    | some tile =>
      rw [htile] at h
      dsimp only at h
      refine ⟨tile, _, canWalkTo_getTile htile, rfl, .inr ⟨rfl, rfl, ?_⟩⟩
      unfold stepCost
      rw [← Nat.add_assoc]
      cases hcreate : ns.createOpenNode n pos.x pos.y
          (f + getMapWalkCost (ns.nodes n) pos + w.getTileWalkCost tile) with
      | none =>
        rw [hcreate] at h
        exact absurd h (by simp)
      | some ns'' =>
        rw [hcreate] at h
        exact congrArg some (Visit.take.inj h)

/-! ## One expansion -/

variable (w targetPos fpp) in
/-- What the expansion of `n` over the squares in `l` does to the node `i`: nothing, or the node
gets the parent `n`, at the cost of a step from it. -/
def Touched (n : ℕ) (l : List Position) (ns ns' : AStarNodes) (i : ℕ) : Prop :=
  (i < ns.curNode ∧ ns'.nodes i = ns.nodes i ∧ ns'.openNodes i = ns.openNodes i) ∨
    ((ns'.nodes i).parent = some n ∧ ns'.openNodes i = true ∧ nodePos w (ns'.nodes i) ∈ l ∧
      InReach w targetPos fpp (nodePos w (ns'.nodes i)) ∧
      (i < ns.curNode → (ns'.nodes i).f < (ns.nodes i).f) ∧
      ∃ tile, w.getTile (nodePos w (ns'.nodes i)) = some tile ∧
        (ns'.nodes i).f = (ns.nodes n).f + stepCost w (ns.nodes n) (nodePos w (ns'.nodes i)) tile)

variable (w targetPos fpp) in
structure Grown (n : ℕ) (l : List Position) (ns ns' : AStarNodes) : Prop where
  larger : Extends ns ns'
  size : ns'.curNode ≤ ns.curNode + l.length
  self : ns'.nodes n = ns.nodes n
  node : ∀ i < ns'.curNode, Touched w targetPos fpp n l ns ns' i

theorem Grown.refl (n : ℕ) (l : List Position) (ns : AStarNodes) :
    Grown w targetPos fpp n l ns ns :=
  ⟨Extends.refl ns, Nat.le_add_right _ _, rfl, fun _ hi => .inl ⟨hi, rfl, rfl⟩⟩

theorem Grown.f_le {l : List Position} (h : Grown w targetPos fpp n l ns ns')
    (hi : i < ns.curNode) : (ns'.nodes i).f ≤ (ns.nodes i).f := by
  rcases h.node i (hi.trans_le h.larger.curNode_le) with ⟨-, hsame, -⟩ | ⟨-, -, -, -, hless, -⟩
  · rw [hsame]
  · exact (hless hi).le

theorem Grown.trans {a b : AStarNodes} {rest : List Position}
    (h : Grown w targetPos fpp n [pos] ns a) (h' : Grown w targetPos fpp n rest a b) :
    Grown w targetPos fpp n (pos :: rest) ns b where
  larger := h.larger.trans h'.larger
  size := by
    have h1 := h.size
    have h2 := h'.size
    simp only [List.length_cons, List.length_nil] at *
    omega
  self := h'.self.trans h.self
  node i hi := by
    rcases h'.node i hi with ⟨hia, hnode, hopen⟩ |
      ⟨hparent, hopen, hmem, hreach, hless, tile, htile, hcost⟩
    · rcases h.node i hia with ⟨hi0, hnode', hopen'⟩ |
        ⟨hparent, hopen', hmem, hreach, hless, tile, htile, hcost⟩
      · exact .inl ⟨hi0, hnode.trans hnode', hopen.trans hopen'⟩
      · refine .inr ?_
        rw [hnode, hopen]
        refine ⟨hparent, hopen', ?_, hreach, hless, tile, htile, hcost⟩
        rw [List.mem_singleton.mp hmem]
        exact List.mem_cons_self
    · refine .inr ⟨hparent, hopen, List.mem_cons_of_mem _ hmem, hreach, fun hi0 => ?_, tile,
        htile, ?_⟩
      · exact (hless (hi0.trans_le h.larger.curNode_le)).trans_le (h.f_le hi0)
      · rw [hcost, h.self]

theorem Grown.mono {l l' : List Position} (h : Grown w targetPos fpp n l ns ns')
    (hsub : ∀ p ∈ l, p ∈ l') (hlength : l.length ≤ l'.length) :
    Grown w targetPos fpp n l' ns ns' where
  larger := h.larger
  size := h.size.trans (Nat.add_le_add_left hlength _)
  self := h.self
  node i hi := by
    rcases h.node i hi with hsame | ⟨hparent, hopen, hmem, hrest⟩
    · exact .inl hsame
    · exact .inr ⟨hparent, hopen, hsub _ hmem, hrest⟩

theorem openNodes_reparent (ns : AStarNodes) (i n f k : ℕ) :
    (ns.reparent i n f).openNodes k = if k = i then true else ns.openNodes k := by
  unfold AStarNodes.reparent AStarNodes.openNode
  split_ifs with hopen hk hk
  · rw [hk]
    exact hopen
  · rfl
  · rw [hk]
    exact Function.update_self ..
  · exact Function.update_of_ne hk ..

theorem visit_grown (h : Sound w ns) (hn : n < ns.curNode) (hz : pos.z = w.position.z)
    (hnear : IsNeighbor (nodePos w (ns.nodes n)) pos)
    (htake : visit w targetPos fpp n (ns.nodes n).f pos ns = .take ns') :
    Sound w ns' ∧ Grown w targetPos fpp n [pos] ns ns' := by
  obtain ⟨hreach, tile, newf, htile, rfl, hcase⟩ := visit_take htake
  have hcost := stepCost_ge (w := w) (ns.nodes n) pos tile
  rcases hcase with ⟨i, htable, hcheaper, rfl⟩ | ⟨htable, hwalk, hcreate⟩
  · obtain ⟨hi, hpos⟩ := h.mem_table htable hz
    obtain ⟨hsound, hself, hextends, -⟩ := sound_reparent h hn hi (by omega) hcheaper
      (by rw [hpos]; exact hnear)
    refine ⟨hsound, hextends, by simp, hself, fun k hk => ?_⟩
    by_cases hki : k = i
    · subst hki
      have hnode : nodePos w ((ns.reparent k n ((ns.nodes n).f +
          stepCost w (ns.nodes n) pos tile)).nodes k) = pos := by
        rw [hextends.nodePos_eq hi, hpos]
      refine .inr ?_
      rw [hnode, openNodes_reparent, if_pos rfl, AStarNodes.reparent_nodes, Function.update_self]
      exact ⟨rfl, rfl, List.mem_singleton_self pos, hreach, fun _ => hcheaper, tile, htile, rfl⟩
    · refine .inl ⟨by simpa using hk, ?_, ?_⟩
      · rw [AStarNodes.reparent_nodes, Function.update_of_ne hki]
      · rw [openNodes_reparent, if_neg hki]
  · obtain ⟨hsound, hself, hextends, -⟩ := sound_createOpenNode h hn (by omega) hz htable
      (by simp [hwalk]) hnear hcreate
    obtain ⟨-, rfl⟩ := createOpenNode_eq_some.mp hcreate
    refine ⟨hsound, hextends, le_rfl, hself, fun k hk => ?_⟩
    by_cases hknew : k = ns.curNode
    · subst hknew
      refine .inr ?_
      simp only [Function.update_self]
      have hnode : nodePos w ⟨some n, (ns.nodes n).f + stepCost w (ns.nodes n) pos tile, pos.x,
          pos.y⟩ = pos := by
        unfold nodePos
        rw [← hz]
      rw [hnode]
      exact ⟨trivial, trivial, List.mem_singleton_self pos, hreach,
        fun hlt => absurd hlt (lt_irrefl _), tile, htile, rfl⟩
    · have hlt : k < ns.curNode + 1 := hk
      refine .inl ⟨by omega, Function.update_of_ne hknew .., Function.update_of_ne hknew ..⟩

theorem expand_grown {found : Bool} {l : List Position} : ∀ {ns : AStarNodes}, Sound w ns →
    n < ns.curNode → (ns.nodes n).f = f →
    (∀ pos ∈ l, pos.z = w.position.z ∧ IsNeighbor (nodePos w (ns.nodes n)) pos) →
    expand w targetPos fpp found n f l ns = .done ns' →
    Sound w ns' ∧ Grown w targetPos fpp n l ns ns' := by
  induction l with
  | nil =>
    intro ns h _ _ _ hdone
    obtain rfl : ns = ns' := by simpa [expand] using hdone
    exact ⟨h, Grown.refl n [] ns⟩
  | cons pos rest ih =>
    intro ns h hn hf hl hdone
    obtain ⟨hz, hnear⟩ := hl pos List.mem_cons_self
    have hrest := fun p hp => hl p (List.mem_cons_of_mem pos hp)
    unfold expand at hdone
    cases hvisit : visit w targetPos fpp n f pos ns with
    | skip =>
      rw [hvisit] at hdone
      obtain ⟨hsound, hgrown⟩ := ih h hn hf hrest hdone
      exact ⟨hsound, hgrown.mono (fun _ => List.mem_cons_of_mem _) (Nat.le_succ _)⟩
    | take a =>
      rw [hvisit] at hdone
      obtain ⟨hsound, hgrown⟩ := visit_grown h hn hz hnear (by rw [hf]; exact hvisit)
      have hself := hgrown.self
      obtain ⟨hsound', hgrown'⟩ := ih hsound (hn.trans_le hgrown.larger.curNode_le)
        (by rw [hself]; exact hf) (by rw [hself]; exact hrest) hdone
      exact ⟨hsound', hgrown.trans hgrown'⟩
    | full =>
      rw [hvisit] at hdone
      cases found with
      | false => exact absurd hdone (by simp)
      | true =>
        obtain rfl : ns = ns' := by simpa using hdone
        exact ⟨h, Grown.refl n _ ns⟩
    | nullTile =>
      rw [hvisit] at hdone
      exact absurd hdone (by simp)

variable (w) in
/-- The square has a node that costs at most `cost`. -/
def Reaches (ns : AStarNodes) (pos : Position) (cost : ℕ) : Prop :=
  ∃ i < ns.curNode, nodePos w (ns.nodes i) = pos ∧ (ns.nodes i).f ≤ cost

theorem Grown.reaches {l : List Position} {cost : ℕ} (h : Grown w targetPos fpp n l ns ns')
    (hpos : Reaches w ns pos cost) : Reaches w ns' pos cost := by
  obtain ⟨i, hi, rfl, hle⟩ := hpos
  exact ⟨i, hi.trans_le h.larger.curNode_le, h.larger.nodePos_eq hi, (h.f_le hi).trans hle⟩

/-- With room in the pool, a square in reach that can be walked to has a node afterwards. -/
theorem visit_reaches (h : Sound w ns) (hz : pos.z = w.position.z)
    (hreach : InReach w targetPos fpp pos) (hwalk : w.canWalkTo pos = some tile)
    (hroom : ns.curNode < MAX_NODES) :
    (visit w targetPos fpp n f pos ns = .skip ∧
        Reaches w ns pos (f + stepCost w (ns.nodes n) pos tile)) ∨
      ∃ a, visit w targetPos fpp n f pos ns = .take a ∧
        Reaches w a pos (f + stepCost w (ns.nodes n) pos tile) := by
  unfold visit
  dsimp only
  rw [if_neg hreach.1, if_neg hreach.2]
  cases htable : ns.getNodeByPosition pos.x pos.y with
  | some i =>
    obtain ⟨hi, hpos⟩ := h.mem_table htable hz
    rw [canWalkTo_getTile hwalk]
    dsimp only
    split_ifs with hcheaper
    · refine .inl ⟨rfl, i, hi, hpos, ?_⟩
      unfold stepCost
      omega
    · refine .inr ⟨_, rfl, i, by simpa using hi, ?_, ?_⟩
      · rw [← hpos]
        unfold nodePos
        rw [AStarNodes.reparent_nodes, Function.update_self]
      · rw [AStarNodes.reparent_nodes, Function.update_self]
        unfold stepCost
        dsimp only
        omega
  | none =>
    rw [hwalk]
    dsimp only
    unfold AStarNodes.createOpenNode
    rw [if_neg (by omega)]
    refine .inr ⟨_, rfl, ns.curNode, Nat.lt_succ_self _, ?_, ?_⟩
    · unfold nodePos
      simp only [Function.update_self, ← hz]
    · simp only [Function.update_self]
      unfold stepCost
      omega

theorem visit_ne_full (hroom : ns.curNode < MAX_NODES) :
    visit w targetPos fpp n f pos ns ≠ .full := by
  unfold visit
  dsimp only
  split_ifs
  · simp
  · simp
  · cases ns.getNodeByPosition pos.x pos.y with
    | some i =>
      cases w.getTile pos with
      | none => simp
      | some tile =>
        dsimp only
        split_ifs <;> simp
    | none =>
      cases w.canWalkTo pos with
      | none => simp
      | some tile =>
        dsimp only
        unfold AStarNodes.createOpenNode
        rw [if_neg (by omega)]
        simp

variable (targetPos fpp) in
theorem expand_reaches (found : Bool) {l : List Position} : ∀ {ns : AStarNodes}, Sound w ns →
    n < ns.curNode → (ns.nodes n).f = f →
    (∀ pos ∈ l, pos.z = w.position.z ∧ IsNeighbor (nodePos w (ns.nodes n)) pos) →
    ns.curNode + l.length ≤ MAX_NODES →
    ∃ ns', expand w targetPos fpp found n f l ns = .done ns' ∧
      ∀ pos ∈ l, InReach w targetPos fpp pos → ∀ tile, w.canWalkTo pos = some tile →
        Reaches w ns' pos (f + stepCost w (ns.nodes n) pos tile) := by
  induction l with
  | nil => exact fun _ _ _ _ _ => ⟨_, rfl, by simp⟩
  | cons pos rest ih =>
    intro ns h hn hf hl hroom
    obtain ⟨hz, hnear⟩ := hl pos List.mem_cons_self
    have hrest := fun p hp => hl p (List.mem_cons_of_mem pos hp)
    rw [List.length_cons] at hroom
    have hplace : ns.curNode < MAX_NODES := by omega
    rcases visit_sound targetPos fpp h hn hf hz hnear with
      hskip | hfull | ⟨a, htake, hsound, hself, hlarger, -⟩
    · obtain ⟨ns', hdone, hcovers⟩ := ih h hn hf hrest (by omega)
      refine ⟨ns', by rw [expand, hskip]; exact hdone, fun p hp hreach tile hwalk => ?_⟩
      rcases List.mem_cons.mp hp with rfl | hp
      · have hnow := visit_reaches (n := n) (f := f) h hz hreach hwalk hplace
        rw [hskip] at hnow
        rcases hnow with ⟨-, hreaches⟩ | ⟨a, ha, -⟩
        · exact (expand_grown h hn hf hrest hdone).2.reaches hreaches
        · exact absurd ha (by simp)
      · exact hcovers p hp hreach tile hwalk
    · exact absurd hfull (visit_ne_full hplace)
    · obtain ⟨-, hgrown⟩ := visit_grown h hn hz hnear (by rw [hf]; exact htake)
      have hsize := hgrown.size
      rw [List.length_singleton] at hsize
      have hn' := hn.trans_le hlarger.curNode_le
      have hf' : (a.nodes n).f = f := by rw [hself]; exact hf
      have hrest' : ∀ pos ∈ rest, pos.z = w.position.z ∧
          IsNeighbor (nodePos w (a.nodes n)) pos := by
        rw [hself]
        exact hrest
      obtain ⟨ns', hdone, hcovers⟩ := ih hsound hn' hf' hrest' (by omega)
      refine ⟨ns', by rw [expand, htake]; exact hdone, fun p hp hreach tile hwalk => ?_⟩
      rcases List.mem_cons.mp hp with rfl | hp
      · have hnow := visit_reaches (n := n) (f := f) h hz hreach hwalk hplace
        rw [htake] at hnow
        rcases hnow with ⟨hskip, -⟩ | ⟨b, hb, hreaches⟩
        · exact absurd hskip (by simp)
        · obtain rfl : a = b := by simpa using hb
          exact (expand_grown hsound hn' hf' hrest' hdone).2.reaches hreaches
      · have hstep := hcovers p hp hreach tile hwalk
        rwa [hself] at hstep

/-! ## Rounds -/

/-- The node that is chosen costs no more than another open one. -/
theorem getBestNode_le (h : ns.getBestNode = some n) :
    ∀ i < ns.curNode, ns.openNodes i = true → (ns.nodes n).f ≤ (ns.nodes i).f := by
  have hfold : ∀ k, ∀ best, (List.range k).foldl ns.better (2147483647, none) = best →
      (∀ n, best.2 = some n → best.1 = (ns.nodes n).f) ∧
        ∀ i < k, ns.openNodes i = true → best.1 ≤ (ns.nodes i).f := by
    intro k
    induction k with
    | zero =>
      rintro _ rfl
      exact ⟨fun n hn => absurd hn (by simp), fun i hi => absurd hi (Nat.not_lt_zero i)⟩
    | succ k ih =>
      rintro _ rfl
      obtain ⟨hbest, hle⟩ := ih _ rfl
      rw [List.range_succ, List.foldl_append, List.foldl_cons, List.foldl_nil]
      generalize (List.range k).foldl ns.better (2147483647, none) = best at hbest hle
      unfold AStarNodes.better
      split_ifs with hbetter
      · refine ⟨fun n hn => by rw [Option.some.inj hn], fun i hi hopen => ?_⟩
        rcases Nat.lt_succ_iff_lt_or_eq.mp hi with hlt | rfl
        · exact hbetter.2.le.trans (hle i hlt hopen)
        · exact le_rfl
      · refine ⟨hbest, fun i hi hopen => ?_⟩
        rcases Nat.lt_succ_iff_lt_or_eq.mp hi with hlt | rfl
        · exact hle i hlt hopen
        · exact not_lt.mp fun hless => hbetter ⟨hopen, hless⟩
  obtain ⟨hbest, hle⟩ := hfold ns.curNode _ rfl
  rw [← hbest n h]
  exact hle

theorem Sound.node_unique (h : Sound w ns) {k : ℕ} (hi : i < ns.curNode) (hk : k < ns.curNode)
    (hpos : nodePos w (ns.nodes i) = nodePos w (ns.nodes k)) : i = k := by
  have hxk := congrArg Position.x hpos
  have hyk := congrArg Position.y hpos
  have htable := (h.table (ns.nodes k).x (ns.nodes k).y k).mpr ⟨hk, rfl, rfl⟩
  have htable' := (h.table (ns.nodes k).x (ns.nodes k).y i).mpr ⟨hi, hxk, hyk⟩
  exact Option.some.inj (htable'.symm.trans htable)

theorem Sound.parent_lt (h : Sound w ns) {j : ℕ} (hi : i < ns.curNode)
    (hparent : (ns.nodes i).parent = some j) : j < ns.curNode := by
  have hi0 : i ≠ 0 := by
    rintro rfl
    rw [h.start] at hparent
    exact absurd hparent (by simp)
  obtain ⟨j', hj', hparent', -⟩ := h.parent i hi hi0
  obtain rfl : j' = j := Option.some.inj (hparent'.symm.trans hparent)
  exact hj'

theorem openNodes_closeNode (hi : i ≠ n) : (ns.closeNode n).openNodes i = ns.openNodes i :=
  Function.update_of_ne hi _ _

theorem openNodes_closeNode_self (n : ℕ) : (ns.closeNode n).openNodes n = false :=
  Function.update_self ..

theorem record_found (s : State) (n : ℕ) (pos : Position) (accepted : Option ℤ) :
    (s.record n pos accepted).found = s.found ∨
      (s.record n pos accepted).found = some (n, pos) := by
  cases accepted with
  | none => exact .inl rfl
  | some best => exact .inr rfl

/-- A round takes the best node, finds its square or not, and expands it or leaves. -/
theorem round_cases (w : Walker τ) (targetPos : Position) (fpp : FindPathParams) (s : State) :
    (∀ t, round w targetPos fpp s = .leave t → t.nodes = s.nodes ∧ (t.found = s.found ∨
      ∃ n, s.nodes.getBestNode = some n ∧
        t.found = some (n, nodePos w (s.nodes.nodes n)))) ∧
    ∀ t, round w targetPos fpp s = .again t → ∃ n found ns', s.nodes.getBestNode = some n ∧
      expand w targetPos fpp found n (s.nodes.nodes n).f (neighbors w fpp s.nodes n) s.nodes =
        .done ns' ∧ t.nodes = ns'.closeNode n ∧
      (t.found = s.found ∨ t.found = some (n, nodePos w (s.nodes.nodes n))) := by
  unfold round
  by_cases hclosed : fpp.maxSearchDist = 0 ∧ s.nodes.closedNodes ≥ 100
  · rw [if_pos hclosed]
    refine ⟨fun t ht => ?_, fun t ht => absurd ht (by simp)⟩
    obtain rfl := Round.leave.inj ht
    exact ⟨rfl, .inl rfl⟩
  · rw [if_neg hclosed]
    cases hbest : s.nodes.getBestNode with
    | none =>
      dsimp only
      split_ifs
      · refine ⟨fun t ht => ?_, fun t ht => absurd ht (by simp)⟩
        obtain rfl := Round.leave.inj ht
        exact ⟨rfl, .inl rfl⟩
      · exact ⟨fun t ht => absurd ht (by simp), fun t ht => absurd ht (by simp)⟩
    | some n =>
      dsimp only
      generalize FrozenPathingConditionCall.call targetPos fpp w.isSightClear w.position
        (nodePos w (s.nodes.nodes n)) s.bestMatch = accepted
      have hnodes := record_nodes s n (nodePos w (s.nodes.nodes n)) accepted
      have hfound := record_found s n (nodePos w (s.nodes.nodes n)) accepted
      generalize s.record n (nodePos w (s.nodes.nodes n)) accepted = tried at hnodes hfound
      split_ifs with hbreak
      · refine ⟨fun t ht => ?_, fun t ht => absurd ht (by simp)⟩
        obtain rfl := Round.leave.inj ht
        exact ⟨hnodes, hfound.imp_right fun hnow => ⟨n, rfl, hnow⟩⟩
      · rw [hnodes]
        cases hdone : expand w targetPos fpp tried.found.isSome n (s.nodes.nodes n).f
            (neighbors w fpp s.nodes n) s.nodes with
        | returnFalse =>
          exact ⟨fun t ht => absurd ht (by simp), fun t ht => absurd ht (by simp)⟩
        | nullTile =>
          exact ⟨fun t ht => absurd ht (by simp), fun t ht => absurd ht (by simp)⟩
        | done ns' =>
          refine ⟨fun t ht => absurd ht (by simp), fun t ht => ?_⟩
          obtain rfl := Round.again.inj ht
          exact ⟨n, tried.found.isSome, ns', rfl, hdone, rfl, hfound⟩

theorem walkBack_mono : ∀ {fuel : ℕ} {prev : Position} {found : Option ℕ}
    {dirList l : List Direction}, walkBack w ns fuel prev found dirList = some l →
    walkBack w ns (fuel + 1) prev found dirList = some l := by
  intro fuel
  induction fuel with
  | zero =>
    intro prev found dirList l h
    cases found with
    | none =>
      rw [walkBack] at h ⊢
      exact h
    | some i =>
      rw [walkBack] at h
      exact absurd h (by simp)
  | succ fuel ih =>
    intro prev found dirList l h
    cases found with
    | none =>
      rw [walkBack] at h ⊢
      exact h
    | some i =>
      rw [walkBack] at h ⊢
      exact ih h

theorem search_mono : ∀ {fuel : ℕ} {s : State} {answer : Answer},
    search w targetPos fpp fuel s = some answer →
    search w targetPos fpp (fuel + 1) s = some answer := by
  intro fuel
  induction fuel with
  | zero => exact fun h => absurd h (by simp [search])
  | succ fuel ih =>
    intro s answer h
    rw [search] at h ⊢
    cases hround : round w targetPos fpp s with
    | again t =>
      rw [hround] at h
      exact ih h
    | leave t =>
      rw [hround] at h
      cases hfound : t.found with
      | none =>
        simp only [hfound] at h ⊢
        exact h
      | some found =>
        obtain ⟨i, endPos⟩ := found
        simp only [hfound] at h ⊢
        obtain ⟨l, hback, hl⟩ := Option.map_eq_some_iff.mp h
        rw [walkBack_mono hback, ← hl]
        rfl
    | returnFalse =>
      rw [hround] at h
      exact h
    | nullTile =>
      rw [hround] at h
      exact h

theorem search_unique {fuel fuel' : ℕ} {s : State} {answer answer' : Answer}
    (h : search w targetPos fpp fuel s = some answer)
    (h' : search w targetPos fpp fuel' s = some answer') : answer = answer' := by
  have hmore : ∀ {fuel : ℕ} {answer : Answer}, search w targetPos fpp fuel s = some answer →
      ∀ k, search w targetPos fpp (fuel + k) s = some answer := by
    intro fuel answer h k
    induction k with
    | zero => exact h
    | succ k ih => exact search_mono ih
  have hleft := hmore h fuel'
  rw [Nat.add_comm, hmore h' fuel] at hleft
  exact (Option.some.inj hleft).symm

end TibiaServer.World.PathSearch
