import TibiaServer.World.PathExpansion
/-!
# Corners

The rows for the squares after the first are cut to their three straight neighbors when diagonal
steps are not allowed, while the square of the creature has all eight.  A diagonal neighbor of the
creature keeps that first step exactly until it is reached at less cost by way of a square beside
both.  Such a corner, if it is free, costs 10 and is expanded before any diagonal square, which
costs 25 at least (`Settled`).
-/

namespace TibiaServer.World.PathSearch

open AStarNodes (key createOpenNode_eq_some getBestNode_spec getMapWalkCost)

variable {τ : Type} (w : Walker τ) (targetPos : Position) (fpp : FindPathParams)

def Cardinal (d : Direction) : Prop := d = .NORTH ∨ d = .EAST ∨ d = .SOUTH ∨ d = .WEST

variable {w targetPos fpp} {ns ns' : AStarNodes} {n f i : ℕ} {pos : Position} {tile : τ}

theorem stepDirection_cardinal {dx dy : ℤ} (h : ¬ (|dx| = 1 ∧ |dy| = 1)) :
    ∀ d ∈ stepDirection dx dy, Cardinal d := by
  have hx : ∀ z : ℤ, z = 1 ∨ z = -1 → |z| = 1 := by
    rintro z (rfl | rfl) <;> rfl
  intro d hd
  unfold stepDirection at hd
  unfold Cardinal
  split_ifs at hd with h1 h2 h3 h4 h5 h6 h7 h8
  · exact absurd ⟨hx dx (.inl h1.1), hx dy (.inl h1.2)⟩ h
  · exact absurd ⟨hx dx (.inr h2.1), hx dy (.inl h2.2)⟩ h
  · exact absurd ⟨hx dx (.inl h3.1), hx dy (.inr h3.2)⟩ h
  · exact absurd ⟨hx dx (.inr h4.1), hx dy (.inr h4.2)⟩ h
  · exact .inr (.inr (.inr (Option.some.inj hd).symm))
  · exact .inr (.inl (Option.some.inj hd).symm)
  · exact .inl (Option.some.inj hd).symm
  · exact .inr (.inr (.inl (Option.some.inj hd).symm))
  · exact absurd hd (by simp)

/-! ## The squares looked at -/

/-- Offsets along one axis. -/
theorem dirNeighbors_straight {d : Direction} (h : Cardinal d) :
    ∀ offset ∈ (dirNeighbors d).take 3, (offset.1 = 0 ∧ (offset.2 = 1 ∨ offset.2 = -1)) ∨
      (offset.2 = 0 ∧ (offset.1 = 1 ∨ offset.1 = -1)) := by
  rcases h with rfl | rfl | rfl | rfl <;> decide

theorem neighborsRow_cardinal (dx dy : ℤ) : Cardinal (neighborsRow false dx dy) := by
  unfold neighborsRow Cardinal
  simp only [Bool.not_false, Bool.true_or, if_true]
  split_ifs <;> simp

/-- A square straight beside another, also across the edge of the coordinates. -/
theorem ofInt_straight {p q : Position} {offset : ℤ × ℤ}
    (h : (offset.1 = 0 ∧ (offset.2 = 1 ∨ offset.2 = -1)) ∨
      (offset.2 = 0 ∧ (offset.1 = 1 ∨ offset.1 = -1)))
    (hq : q = .ofInt (p.getX + offset.1) (p.getY + offset.2) p.z) :
    |(p.x.toNat : ℤ) - q.getX| ≠ |(p.y.toNat : ℤ) - q.getY| := by
  have hX := Position.getX_ofInt (p.getX + offset.1) (p.getY + offset.2) p.z
  have hY := Position.getY_ofInt (p.getX + offset.1) (p.getY + offset.2) p.z
  rw [← hq] at hX hY
  have hpx := p.getX_bounds
  have hpy := p.getY_bounds
  change |p.getX - q.getX| ≠ |p.getY - q.getY|
  intro heq
  rcases abs_eq_abs.mp heq with heq | heq <;>
    rcases h with ⟨h0, h1 | h1⟩ | ⟨h0, h1 | h1⟩ <;> omega

/-- Without diagonal steps a node with a parent looks at three squares of its row. -/
theorem neighbors_next {j : ℕ} (hdiagonal : fpp.allowDiagonal = false)
    (hparent : (ns.nodes n).parent = some j) :
    neighbors w fpp ns n = ((dirNeighbors (neighborsRow false
      (((ns.nodes j).x.toNat : ℤ) - (ns.nodes n).x.toNat)
      (((ns.nodes j).y.toNat : ℤ) - (ns.nodes n).y.toNat))).take 3).map fun offset =>
        .ofInt ((ns.nodes n).x.toNat + offset.1) ((ns.nodes n).y.toNat + offset.2)
          w.position.z := by
  unfold neighbors
  dsimp only
  rw [hparent, hdiagonal]
  rfl

theorem neighbors_start (hparent : (ns.nodes n).parent = none) :
    neighbors w fpp ns n = allNeighbors.map fun offset =>
      .ofInt ((ns.nodes n).x.toNat + offset.1) ((ns.nodes n).y.toNat + offset.2)
        w.position.z := by
  unfold neighbors
  dsimp only
  rw [hparent]

theorem neighbors_straight (hdiagonal : fpp.allowDiagonal = false)
    (hparent : (ns.nodes n).parent ≠ none) :
    (neighbors w fpp ns n).length = 3 ∧ ∀ pos ∈ neighbors w fpp ns n,
      |((ns.nodes n).x.toNat : ℤ) - pos.getX| ≠ |((ns.nodes n).y.toNat : ℤ) - pos.getY| := by
  obtain ⟨j, hj⟩ := Option.ne_none_iff_exists'.mp hparent
  rw [neighbors_next hdiagonal hj]
  refine ⟨?_, fun pos hpos => ?_⟩
  · rw [List.length_map]
    generalize neighborsRow false _ _ = d
    cases d <;> rfl
  · obtain ⟨offset, hoffset, rfl⟩ := List.mem_map.mp hpos
    exact ofInt_straight (p := nodePos w (ns.nodes n))
      (dirNeighbors_straight (neighborsRow_cardinal _ _) offset hoffset) rfl

/-- `c` lies straight beside both `p` and the square `d` diagonal to it. -/
def Corner (p d c : Position) : Prop :=
  c.z = p.z ∧ (c.x = d.x ∧ c.y = p.y ∨ c.x = p.x ∧ c.y = d.y)

theorem abs_eq_one {a : ℤ} (h : |a| = 1) : a = 1 ∨ a = -1 := by
  rcases abs_choice a with ha | ha <;> omega

/-- A square at an offset of the row is among those looked at. -/
theorem mem_squares {row : List (ℤ × ℤ)} {node : AStarNode} {x y : ℤ} (hmem : (x, y) ∈ row)
    (hx : pos.x.toNat = node.x.toNat + x) (hy : pos.y.toNat = node.y.toNat + y)
    (hz : pos.z = w.position.z) :
    pos ∈ row.map fun offset => Position.ofInt (node.x.toNat + offset.1)
      (node.y.toNat + offset.2) w.position.z := by
  refine List.mem_map.mpr ⟨(x, y), hmem, ?_⟩
  have hbx := pos.getX_bounds
  have hby := pos.getY_bounds
  apply Position.ext_get
  · rw [Position.getX_ofInt, ← hx]
    exact Int.emod_eq_of_lt hbx.1 hbx.2
  · rw [Position.getY_ofInt, ← hy]
    exact Int.emod_eq_of_lt hby.1 hby.2
  · exact hz.symm

/-- The creature itself looks at the corners, which are straight beside it. -/
theorem corner_mem_neighbors {p d : Position} (hstart : nodePos w (ns.nodes n) = p)
    (hparent : (ns.nodes n).parent = none) (hd : Diagonal p d) (hc : Corner p d pos) :
    pos ∈ neighbors w fpp ns n := by
  subst hstart
  rw [neighbors_start hparent]
  have hdx := abs_eq_one hd.1
  have hdy := abs_eq_one hd.2
  change (ns.nodes n).x.toNat - (d.x.toNat : ℤ) = 1 ∨
    (ns.nodes n).x.toNat - (d.x.toNat : ℤ) = -1 at hdx
  change (ns.nodes n).y.toNat - (d.y.toNat : ℤ) = 1 ∨
    (ns.nodes n).y.toNat - (d.y.toNat : ℤ) = -1 at hdy
  obtain ⟨hz, ⟨hx, hy⟩ | ⟨hx, hy⟩⟩ := hc
  · change pos.y = (ns.nodes n).y at hy
    rcases hdx with hdx | hdx
    · exact mem_squares (x := -1) (y := 0) (by decide) (by rw [hx]; omega) (by rw [hy]; omega) hz
    · exact mem_squares (x := 1) (y := 0) (by decide) (by rw [hx]; omega) (by rw [hy]; omega) hz
  · change pos.x = (ns.nodes n).x at hx
    rcases hdy with hdy | hdy
    · exact mem_squares (x := 0) (y := -1) (by decide) (by rw [hx]; omega) (by rw [hy]; omega) hz
    · exact mem_squares (x := 0) (y := 1) (by decide) (by rw [hx]; omega) (by rw [hy]; omega) hz

theorem corner_straight {p d c : Position} (hd : Diagonal p d) (hc : Corner p d c) :
    |(p.x.toNat : ℤ) - c.getX| ≠ |(p.y.toNat : ℤ) - c.getY| := by
  obtain ⟨hdx, hdy⟩ := hd
  unfold Position.getX Position.getY
  obtain ⟨-, ⟨hx, hy⟩ | ⟨hx, hy⟩⟩ := hc
  · rw [hx, hy, hdx, sub_self]
    decide
  · rw [hx, hy, hdy, sub_self]
    decide

theorem corner_ne {p d c : Position} (hd : Diagonal p d) (hc : Corner p d c) : c ≠ p := by
  rintro rfl
  obtain ⟨hdx, hdy⟩ := hd
  obtain ⟨-, ⟨hx, -⟩ | ⟨-, hy⟩⟩ := hc
  · rw [hx, sub_self] at hdx
    exact absurd hdx (by decide)
  · rw [hy, sub_self] at hdy
    exact absurd hdy (by decide)

theorem row_horizontal {dx y : ℤ} (h : dx = 1 ∨ dx = -1) (hy : y = 1 ∨ y = -1) :
    (0, y) ∈ (dirNeighbors (neighborsRow false dx 0)).take 3 := by
  rcases h with rfl | rfl <;> rcases hy with rfl | rfl <;> decide

theorem row_vertical {dy x : ℤ} (h : dy = 1 ∨ dy = -1) (hx : x = 1 ∨ x = -1) :
    (x, 0) ∈ (dirNeighbors (neighborsRow false 0 dy)).take 3 := by
  rcases h with rfl | rfl <;> rcases hx with rfl | rfl <;> decide

/-- A corner looks at the square diagonal to the creature. -/
theorem diagonal_mem_neighbors {p d : Position} {j : ℕ} (hdiagonal : fpp.allowDiagonal = false)
    (hstart : nodePos w (ns.nodes j) = p) (hparent : (ns.nodes n).parent = some j)
    (hd : Diagonal p d) (hc : Corner p d (nodePos w (ns.nodes n))) (hz : d.z = w.position.z) :
    d ∈ neighbors w fpp ns n := by
  subst hstart
  rw [neighbors_next hdiagonal hparent]
  have hdx : ((ns.nodes j).x.toNat : ℤ) - d.x.toNat = 1 ∨
      ((ns.nodes j).x.toNat : ℤ) - d.x.toNat = -1 := abs_eq_one hd.1
  have hdy : ((ns.nodes j).y.toNat : ℤ) - d.y.toNat = 1 ∨
      ((ns.nodes j).y.toNat : ℤ) - d.y.toNat = -1 := abs_eq_one hd.2
  obtain ⟨-, ⟨hx, hy⟩ | ⟨hx, hy⟩⟩ := hc
  · have hx : (ns.nodes n).x = d.x := hx
    have hy : (ns.nodes n).y = (ns.nodes j).y := hy
    have hback : (d.y.toNat : ℤ) - (ns.nodes n).y.toNat = 1 ∨
        (d.y.toNat : ℤ) - (ns.nodes n).y.toNat = -1 := by
      rw [hy]
      omega
    have hrow := row_horizontal hdx hback
    refine mem_squares (x := 0) (y := (d.y.toNat : ℤ) - (ns.nodes n).y.toNat) ?_ ?_ ?_ hz
    · rw [hx, hy, sub_self]
      rwa [hy] at hrow
    · rw [hx, add_zero]
    · omega
  · have hx : (ns.nodes n).x = (ns.nodes j).x := hx
    have hy : (ns.nodes n).y = d.y := hy
    have hback : (d.x.toNat : ℤ) - (ns.nodes n).x.toNat = 1 ∨
        (d.x.toNat : ℤ) - (ns.nodes n).x.toNat = -1 := by
      rw [hx]
      omega
    have hrow := row_vertical hdy hback
    refine mem_squares (x := (d.x.toNat : ℤ) - (ns.nodes n).x.toNat) (y := 0) ?_ ?_ ?_ hz
    · rw [hx, hy, sub_self]
      rwa [hx] at hrow
    · omega
    · rw [hy, add_zero]

/-! ## After the first round -/

variable (w targetPos fpp) in
/-- Every diagonal neighbor of the creature that it can walk to has a free corner. -/
def CornersFree : Prop :=
  ∀ d, d.z = w.position.z → Diagonal w.position d → InReach w targetPos fpp d →
    (w.canWalkTo d).isSome → ∃ c, Corner w.position d c ∧ InReach w targetPos fpp c ∧
      ∃ tile, w.canWalkTo c = some tile ∧ w.getTileWalkCost tile = 0

variable (w) in
/-- The step to the node is a diagonal one of the creature itself. -/
def Askew (ns : AStarNodes) (i : ℕ) : Prop :=
  (ns.nodes i).parent = some 0 ∧ Diagonal w.position (nodePos w (ns.nodes i))

/-- The open nodes at the cost of one step. -/
def oneStep (ns : AStarNodes) : Finset ℕ :=
  (Finset.range ns.curNode).filter fun i => ns.openNodes i = true ∧ (ns.nodes i).f = 10

variable (w targetPos fpp) in
/-- What holds between the rounds once the creature's own node is closed.  An askew node waits
for its corner, which is open and cheaper, and the pool has room until the corners are
closed. -/
structure Settled (ns : AStarNodes) : Prop where
  sound : Sound w ns
  closed : ns.openNodes 0 = false
  cost : ∀ i < ns.curNode, i ≠ 0 → 10 ≤ (ns.nodes i).f
  straight : ∀ i < ns.curNode, ∀ j, (ns.nodes i).parent = some j → j ≠ 0 →
    ¬ Diagonal (nodePos w (ns.nodes j)) (nodePos w (ns.nodes i)) ∧ ¬ Askew w ns j
  askew : ∀ i < ns.curNode, Askew w ns i →
    InReach w targetPos fpp (nodePos w (ns.nodes i)) ∧
    (∃ tile, w.getTile (nodePos w (ns.nodes i)) = some tile ∧
      (ns.nodes i).f = 25 + w.getTileWalkCost tile) ∧
    ∃ k < ns.curNode, ns.openNodes k = true ∧ (ns.nodes k).parent = some 0 ∧
      (ns.nodes k).f = 10 ∧
      Corner w.position (nodePos w (ns.nodes i)) (nodePos w (ns.nodes k))
  room : (oneStep ns).card = 0 ∨ ns.curNode + 3 * (oneStep ns).card ≤ 33

theorem Settled.start_closed (h : Settled w targetPos fpp ns) (hopen : ns.openNodes i = true) :
    i ≠ 0 := by
  rintro rfl
  rw [h.closed] at hopen
  exact absurd hopen (by simp)

/-- The node chosen is not askew: a corner would have been chosen before it. -/
theorem Settled.chosen (h : Settled w targetPos fpp ns) (hbest : ns.getBestNode = some n) :
    n < ns.curNode ∧ ns.openNodes n = true ∧ n ≠ 0 ∧ ¬ Askew w ns n := by
  obtain ⟨hn, hopen⟩ := getBestNode_spec hbest
  refine ⟨hn, hopen, h.start_closed hopen, fun haskew => ?_⟩
  obtain ⟨-, ⟨tile, -, hcost⟩, k, hk, hopenk, -, hcostk, -⟩ := h.askew n hn haskew
  have hle := getBestNode_le hbest k hk hopenk
  omega

/-- An expansion of a node other than the creature's makes no node askew. -/
theorem Grown.askew {l : List Position} (h : Grown w targetPos fpp n l ns ns') (hn : n ≠ 0)
    (hi : i < ns'.curNode) (haskew : Askew w ns' i) :
    i < ns.curNode ∧ ns'.nodes i = ns.nodes i ∧ ns'.openNodes i = ns.openNodes i ∧
      Askew w ns i := by
  rcases h.node i hi with ⟨hlt, hsame, hopen⟩ | ⟨hparent, -⟩
  · refine ⟨hlt, hsame, hopen, ?_⟩
    unfold Askew at *
    rwa [hsame] at haskew
  · exact absurd (Option.some.inj (hparent.symm.trans haskew.1)) hn

theorem mem_oneStep :
    i ∈ oneStep ns ↔ i < ns.curNode ∧ ns.openNodes i = true ∧ (ns.nodes i).f = 10 := by
  unfold oneStep
  rw [Finset.mem_filter, Finset.mem_range]

/-- Nothing that is opened after the first round costs one step only. -/
theorem oneStep_next {l : List Position} (h : Settled w targetPos fpp ns) (hn : n < ns.curNode)
    (hn0 : n ≠ 0) (hgrown : Grown w targetPos fpp n l ns ns') :
    oneStep (ns'.closeNode n) ⊆ (oneStep ns).erase n := by
  intro i hi
  obtain ⟨hlt, hopen, hcost⟩ := mem_oneStep.mp hi
  have hin : i ≠ n := by
    rintro rfl
    rw [openNodes_closeNode_self] at hopen
    exact absurd hopen (by simp)
  rw [openNodes_closeNode hin] at hopen
  refine Finset.mem_erase.mpr ⟨hin, mem_oneStep.mpr ?_⟩
  rcases hgrown.node i hlt with ⟨hlt, hsame, hopen'⟩ | ⟨-, -, -, -, -, tile, -, hcost'⟩
  · refine ⟨hlt, hopen'.symm.trans hopen, ?_⟩
    rw [← hsame]
    exact hcost
  · have hstep := stepCost_ge (w := w) (ns.nodes n) (nodePos w (ns'.nodes i)) tile
    have hparent := h.cost n hn hn0
    change (ns'.nodes i).f = 10 at hcost
    omega

theorem room_next {l : List Position} (h : Settled w targetPos fpp ns)
    (hbest : ns.getBestNode = some n) (hlength : l.length = 3)
    (hgrown : Grown w targetPos fpp n l ns ns') :
    (oneStep (ns'.closeNode n)).card = 0 ∨
      (ns'.closeNode n).curNode + 3 * (oneStep (ns'.closeNode n)).card ≤ 33 := by
  obtain ⟨hn, hopen, hn0, -⟩ := h.chosen hbest
  have hfewer := Finset.card_le_card (oneStep_next h hn hn0 hgrown)
  have hsize := hgrown.size
  change _ ∨ ns'.curNode + _ ≤ 33
  rcases h.room with hnone | hroom
  · have hempty : (oneStep ns).erase n = ∅ := by
      rw [Finset.card_eq_zero.mp hnone]
      rfl
    rw [hempty, Finset.card_empty] at hfewer
    exact .inl (Nat.le_zero.mp hfewer)
  · rcases (oneStep ns).eq_empty_or_nonempty with hempty | ⟨k, hk⟩
    · rw [hempty] at hfewer
      exact .inl (Nat.le_zero.mp hfewer)
    · obtain ⟨hlt, hopenk, hcostk⟩ := mem_oneStep.mp hk
      have hle := getBestNode_le hbest k hlt hopenk
      have hge := h.cost n hn hn0
      have hmem : n ∈ oneStep ns := mem_oneStep.mpr ⟨hn, hopen, by omega⟩
      have hcard := Finset.card_erase_add_one hmem
      omega

/-- A diagonal square gets the corner as its parent when the corner is expanded. -/
theorem corner_takes {l : List Position} {k : ℕ} {found : Bool}
    (h : Settled w targetPos fpp ns) (hdiagonal : fpp.allowDiagonal = false)
    (hi : i < ns.curNode) (haskew : Askew w ns i)
    (hk : k < ns.curNode) (hopen : ns.openNodes k = true)
    (hparent : (ns.nodes k).parent = some 0) (hcost : (ns.nodes k).f = 10)
    (hcorner : Corner w.position (nodePos w (ns.nodes i)) (nodePos w (ns.nodes k)))
    (hdone : expand w targetPos fpp found k (ns.nodes k).f (neighbors w fpp ns k) ns =
      .done ns') (hsound : Sound w ns') (hgrown : Grown w targetPos fpp k l ns ns') :
    (ns'.nodes i).f < (ns.nodes i).f := by
  obtain ⟨hreach, ⟨tile, htile, hf⟩, -⟩ := h.askew i hi haskew
  have hi0 : i ≠ 0 := by
    rintro rfl
    rw [Askew, h.sound.start] at haskew
    exact absurd haskew.1 (by simp)
  have hnone : (ns.nodes k).parent ≠ none := by
    rw [hparent]
    exact Option.some_ne_none 0
  obtain ⟨hlength, hstraight⟩ := neighbors_straight (w := w) hdiagonal hnone
  have hroom : ns.curNode + (neighbors w fpp ns k).length ≤ MAX_NODES := by
    have hmem : k ∈ oneStep ns := mem_oneStep.mpr ⟨hk, hopen, hcost⟩
    have hpos := Finset.card_pos.mpr ⟨k, hmem⟩
    have hmax : MAX_NODES = 512 := rfl
    rw [hlength]
    rcases h.room with hempty | hroom <;> omega
  obtain ⟨ns'', hdone', hcovers⟩ := expand_reaches targetPos fpp found h.sound hk rfl
    (neighbors_near w fpp ns k) hroom
  obtain rfl : ns'' = ns' := Expansion.done.inj (hdone'.symm.trans hdone)
  have hmem : nodePos w (ns.nodes i) ∈ neighbors w fpp ns k :=
    diagonal_mem_neighbors hdiagonal h.sound.nodePos_zero hparent haskew.2 hcorner rfl
  have hwalk : w.canWalkTo (nodePos w (ns.nodes i)) = some tile := by
    obtain ⟨tile', htile'⟩ := Option.isSome_iff_exists.mp (h.sound.walkable i hi hi0)
    have hsame := (canWalkTo_getTile htile').symm.trans htile
    rw [htile', hsame]
  obtain ⟨m, hm, hpos, hle⟩ := hcovers _ hmem hreach tile hwalk
  have hlarger := hgrown.larger
  obtain rfl : m = i := hsound.node_unique hm (hi.trans_le hlarger.curNode_le)
    (hpos.trans (hlarger.nodePos_eq hi).symm)
  unfold stepCost at hle
  rw [mapWalkCost_straight (hstraight _ hmem)] at hle
  omega

/-- What a round keeps. -/
theorem settled_next {found : Bool} (h : Settled w targetPos fpp ns)
    (hdiagonal : fpp.allowDiagonal = false) (hbest : ns.getBestNode = some n)
    (hdone : expand w targetPos fpp found n (ns.nodes n).f (neighbors w fpp ns n) ns =
      .done ns') :
    Settled w targetPos fpp (ns'.closeNode n) ∧ ns.curNode ≤ ns'.curNode ∧
      ∀ i < ns.curNode, ¬ Askew w ns i → ¬ Askew w (ns'.closeNode n) i := by
  obtain ⟨hn, hopen, hn0, hchosen⟩ := h.chosen hbest
  obtain ⟨hsound, hgrown⟩ := expand_grown h.sound hn rfl (neighbors_near w fpp ns n) hdone
  have hlarger := hgrown.larger
  have hnone : (ns.nodes n).parent ≠ none := by
    obtain ⟨j, -, hparent, -⟩ := h.sound.parent n hn hn0
    rw [hparent]
    exact Option.some_ne_none j
  obtain ⟨hlength, hstraight⟩ := neighbors_straight (w := w) hdiagonal hnone
  have hkeeps : ∀ i < ns.curNode, ¬ Askew w ns i → ¬ Askew w ns' i :=
    fun i hi hnot haskew =>
      hnot (hgrown.askew hn0 (hi.trans_le hlarger.curNode_le) haskew).2.2.2
  refine ⟨?_, hlarger.curNode_le, hkeeps⟩
  refine { sound := sound_closeNode hsound n, closed := ?closed, cost := ?cost,
           straight := ?straight, askew := ?askew, room := room_next h hbest hlength hgrown }
  case closed =>
    rw [openNodes_closeNode hn0.symm]
    rcases hgrown.node 0 hsound.curNode_pos with ⟨-, -, hsame⟩ | ⟨hparent, -⟩
    · exact hsame.trans h.closed
    · rw [hsound.start] at hparent
      exact absurd hparent (by simp)
  case cost =>
    intro i hi hi0
    change 10 ≤ (ns'.nodes i).f
    rcases hgrown.node i hi with ⟨hlt, hsame, -⟩ | ⟨-, -, -, -, -, tile, -, hcost⟩
    · rw [hsame]
      exact h.cost i hlt hi0
    · have hstep := stepCost_ge (w := w) (ns.nodes n) (nodePos w (ns'.nodes i)) tile
      omega
  case straight =>
    intro i hi j hparent hj0
    change (ns'.nodes i).parent = some j at hparent
    change ¬ Diagonal (nodePos w (ns'.nodes j)) (nodePos w (ns'.nodes i)) ∧ ¬ Askew w ns' j
    rcases hgrown.node i hi with ⟨hlt, hsame, -⟩ | ⟨hparent', -, hmem, -⟩
    · rw [hsame] at hparent
      have hj := h.sound.parent_lt hlt hparent
      obtain ⟨hnot, hnotAskew⟩ := h.straight i hlt j hparent hj0
      rw [hlarger.nodePos_eq hj, hlarger.nodePos_eq hlt]
      exact ⟨hnot, hkeeps j hj hnotAskew⟩
    · obtain rfl : n = j := Option.some.inj (hparent'.symm.trans hparent)
      rw [hlarger.nodePos_eq hn]
      refine ⟨fun hdiag => hstraight _ hmem ?_, hkeeps n hn hchosen⟩
      exact hdiag.1.trans hdiag.2.symm
  case askew =>
    intro i hi haskew
    obtain ⟨hlt, hsame, -, hbefore⟩ := hgrown.askew hn0 hi haskew
    obtain ⟨hreach, htile, k, hk, hopenk, hparentk, hcostk, hcorner⟩ := h.askew i hlt hbefore
    have hnk : n ≠ k := by
      rintro rfl
      have hless := corner_takes h hdiagonal hlt hbefore hn hopenk hparentk hcostk hcorner hdone
        hsound hgrown
      rw [hsame] at hless
      exact lt_irrefl _ hless
    change InReach w targetPos fpp (nodePos w (ns'.nodes i)) ∧
      (∃ tile, w.getTile (nodePos w (ns'.nodes i)) = some tile ∧
        (ns'.nodes i).f = 25 + w.getTileWalkCost tile) ∧ _
    rw [hsame]
    refine ⟨hreach, htile, k, hk.trans_le hlarger.curNode_le, ?_⟩
    rw [openNodes_closeNode hnk.symm]
    change ns'.openNodes k = true ∧ (ns'.nodes k).parent = some 0 ∧ (ns'.nodes k).f = 10 ∧
      Corner w.position (nodePos w (ns'.nodes i)) (nodePos w (ns'.nodes k))
    rw [hsame]
    rcases hgrown.node k (hk.trans_le hlarger.curNode_le) with ⟨-, hsamek, hopenk'⟩ |
      ⟨-, -, -, -, hless, tile, -, hcost⟩
    · rw [hsamek]
      exact ⟨hopenk'.trans hopenk, hparentk, hcostk, hcorner⟩
    · have hstep := stepCost_ge (w := w) (ns.nodes n) (nodePos w (ns'.nodes k)) tile
      have hparent := h.cost n hn hn0
      have := hless hk
      omega

/-- The first round leaves each diagonal neighbor an open corner at the cost of one step. -/
theorem settled_first {found : Bool} (hcorners : CornersFree w targetPos fpp)
    (hdone : expand w targetPos fpp found 0 0
      (neighbors w fpp (.init w.position.x w.position.y) 0) (.init w.position.x w.position.y) =
      .done ns') :
    Settled w targetPos fpp (ns'.closeNode 0) := by
  have hinit : Sound w (.init w.position.x w.position.y) := sound_init
  have hnear := neighbors_near w fpp (.init w.position.x w.position.y) 0
  have hnone : ((AStarNodes.init w.position.x w.position.y).nodes 0).parent = none := rfl
  have hlength : (neighbors w fpp (.init w.position.x w.position.y) 0).length = 8 := by
    rw [neighbors_start hnone, List.length_map]
    rfl
  obtain ⟨ns'', hdone', hcovers⟩ := expand_reaches targetPos fpp found hinit Nat.one_pos rfl
    hnear (by rw [hlength]; exact (by decide : 1 + 8 ≤ MAX_NODES))
  obtain rfl : ns'' = ns' := Expansion.done.inj (hdone'.symm.trans hdone)
  obtain ⟨hsound, hgrown⟩ := expand_grown hinit Nat.one_pos rfl hnear hdone
  -- all nodes but the first are new
  have hnew : ∀ i < ns''.curNode, i ≠ 0 → (ns''.nodes i).parent = some 0 ∧
      ns''.openNodes i = true ∧ InReach w targetPos fpp (nodePos w (ns''.nodes i)) ∧
      ∃ tile, w.getTile (nodePos w (ns''.nodes i)) = some tile ∧ (ns''.nodes i).f =
        stepCost w (ns''.nodes 0) (nodePos w (ns''.nodes i)) tile := by
    intro i hi hi0
    rcases hgrown.node i hi with ⟨hlt, -⟩ | ⟨hparent, hopen, -, hreach, -, tile, htile, hcost⟩
    · exact absurd (Nat.lt_one_iff.mp hlt) hi0
    · refine ⟨hparent, hopen, hreach, tile, htile, ?_⟩
      rw [hcost, hgrown.self]
      exact Nat.zero_add _
  have hparent0 : (ns''.nodes 0).parent = none := by
    rw [hsound.start]
  have hwithParent : ∀ i, i < ns''.curNode → (ns''.nodes i).parent = some 0 → i ≠ 0 := by
    rintro i - hparent rfl
    rw [hparent0] at hparent
    exact absurd hparent (by simp)
  refine { sound := sound_closeNode hsound 0, closed := openNodes_closeNode_self 0,
           cost := ?cost, straight := ?straight, askew := ?askew, room := ?room }
  case cost =>
    intro i hi hi0
    obtain ⟨-, -, -, tile, -, hcost⟩ := hnew i hi hi0
    change 10 ≤ (ns''.nodes i).f
    rw [hcost]
    exact stepCost_ge _ _ tile
  case straight =>
    intro i hi j hparent hj0
    change (ns''.nodes i).parent = some j at hparent
    have hi0 : i ≠ 0 := by
      rintro rfl
      rw [hparent0] at hparent
      exact absurd hparent (by simp)
    rw [(hnew i hi hi0).1] at hparent
    exact absurd (Option.some.inj hparent).symm hj0
  case askew =>
    intro i hi haskew
    have hi0 := hwithParent i hi haskew.1
    obtain ⟨-, -, hreach, tile, htile, hcost⟩ := hnew i hi hi0
    change InReach w targetPos fpp (nodePos w (ns''.nodes i)) ∧
      (∃ tile, w.getTile (nodePos w (ns''.nodes i)) = some tile ∧
        (ns''.nodes i).f = 25 + w.getTileWalkCost tile) ∧ _
    have hdiag : Diagonal w.position (nodePos w (ns''.nodes i)) := haskew.2
    refine ⟨hreach, ⟨tile, htile, ?_⟩, ?_⟩
    · rw [hcost, stepCost, mapWalkCost_diagonal]
      rw [hsound.nodePos_zero]
      exact hdiag
    · obtain ⟨c, hc, hreachc, tilec, hwalkc, hfree⟩ := hcorners (nodePos w (ns''.nodes i)) rfl hdiag
        hreach (hsound.walkable i hi hi0)
      have hmem : c ∈ neighbors w fpp (.init w.position.x w.position.y) 0 :=
        corner_mem_neighbors hinit.nodePos_zero hnone hdiag hc
      obtain ⟨k, hk, rfl, hle⟩ := hcovers c hmem hreachc tilec hwalkc
      have hk0 : k ≠ 0 := by
        rintro rfl
        exact corner_ne hdiag hc hsound.nodePos_zero
      obtain ⟨hparentk, hopenk, -, tilek, -, hcostk⟩ := hnew k hk hk0
      have hge := stepCost_ge (w := w) (ns''.nodes 0) (nodePos w (ns''.nodes k)) tilek
      have hten : stepCost w ((AStarNodes.init w.position.x w.position.y).nodes 0)
          (nodePos w (ns''.nodes k)) tilec = 10 := by
        rw [stepCost, hfree, mapWalkCost_straight]
        exact corner_straight hdiag hc
      rw [hten] at hle
      change (ns''.nodes k).f ≤ 0 + 10 at hle
      refine ⟨k, hk, ?_, hparentk, ?_, hc⟩
      · rw [openNodes_closeNode hk0]
        exact hopenk
      · change (ns''.nodes k).f = 10
        omega
  case room =>
    have hsize := hgrown.size
    rw [hlength] at hsize
    have hsub : oneStep (ns''.closeNode 0) ⊆ (Finset.range ns''.curNode).erase 0 := by
      intro i hi
      obtain ⟨hlt, hopen, -⟩ := mem_oneStep.mp hi
      refine Finset.mem_erase.mpr ⟨?_, Finset.mem_range.mpr hlt⟩
      rintro rfl
      rw [openNodes_closeNode_self] at hopen
      exact absurd hopen (by simp)
    have hcard := Finset.card_le_card hsub
    have hrange := Finset.card_erase_add_one (Finset.mem_range.mpr hsound.curNode_pos)
    rw [Finset.card_range] at hrange
    change ns''.curNode ≤ 1 + 8 at hsize
    change _ ∨ ns''.curNode + _ ≤ 33
    omega

/-! ## The way back -/

theorem Settled.walkBack_cardinal (h : Settled w targetPos fpp ns) : ∀ {fuel i : ℕ}
    {dirList l : List Direction}, i < ns.curNode → ¬ Askew w ns i → (∀ d ∈ dirList, Cardinal d) →
    walkBack w ns fuel (nodePos w (ns.nodes i)) (ns.nodes i).parent dirList = some l →
    ∀ d ∈ l, Cardinal d := by
  intro fuel
  induction fuel with
  | zero =>
    intro i dirList l hi hnot hlist hback
    cases hparent : (ns.nodes i).parent with
    | none =>
      rw [hparent, walkBack] at hback
      rwa [← Option.some.inj hback]
    | some j =>
      rw [hparent, walkBack] at hback
      exact absurd hback (by simp)
  | succ fuel ih =>
    intro i dirList l hi hnot hlist hback
    cases hparent : (ns.nodes i).parent with
    | none =>
      rw [hparent, walkBack] at hback
      rwa [← Option.some.inj hback]
    | some j =>
      rw [hparent, walkBack] at hback
      have hj := h.sound.parent_lt hi hparent
      -- a diagonal step is one of the creature itself, which makes the node askew
      have hstraight : ¬ Diagonal (nodePos w (ns.nodes j)) (nodePos w (ns.nodes i)) ∧
          ¬ Askew w ns j := by
        by_cases hj0 : j = 0
        · subst hj0
          rw [h.sound.nodePos_zero]
          refine ⟨fun hdiag => hnot ⟨hparent, hdiag⟩, fun haskew => ?_⟩
          rw [Askew, h.sound.start] at haskew
          exact absurd haskew.1 (by simp)
        · exact h.straight i hi j hparent hj0
      refine ih hj hstraight.2 (fun d hd => ?_) hback
      rcases List.mem_append.mp hd with hd | hd
      · exact stepDirection_cardinal hstraight.1 d (Option.mem_toList.mp hd)
      · exact hlist d hd

/-! ## The search -/

variable (w targetPos fpp) in
/-- The nodes are settled, and the square found is not askew. -/
structure Straightened (s : State) : Prop where
  nodes : Settled w targetPos fpp s.nodes
  found : ∀ i endPos, s.found = some (i, endPos) → i < s.nodes.curNode ∧
    endPos = nodePos w (s.nodes.nodes i) ∧ ¬ Askew w s.nodes i

theorem Straightened.leave {s t : State} (h : Straightened w targetPos fpp s)
    (hround : round w targetPos fpp s = .leave t) : Straightened w targetPos fpp t := by
  obtain ⟨hnodes, hfound⟩ := (round_cases w targetPos fpp s).1 t hround
  constructor
  · rw [hnodes]
    exact h.nodes
  · rw [hnodes]
    rcases hfound with hsame | ⟨n, hbest, hnow⟩
    · rw [hsame]
      exact h.found
    · obtain ⟨hn, -, -, hnot⟩ := h.nodes.chosen hbest
      intro i endPos hi
      obtain ⟨rfl, rfl⟩ := Prod.mk.inj (Option.some.inj (hnow.symm.trans hi))
      exact ⟨hn, rfl, hnot⟩

theorem Straightened.again {s t : State} (h : Straightened w targetPos fpp s)
    (hdiagonal : fpp.allowDiagonal = false) (hround : round w targetPos fpp s = .again t) :
    Straightened w targetPos fpp t := by
  obtain ⟨n, found, ns', hbest, hdone, hnodes, hfound⟩ :=
    (round_cases w targetPos fpp s).2 t hround
  obtain ⟨hsettled, hle, hkeeps⟩ := settled_next h.nodes hdiagonal hbest hdone
  obtain ⟨hn, -, -, hnot⟩ := h.nodes.chosen hbest
  have hlarger := (expand_grown h.nodes.sound hn rfl (neighbors_near w fpp s.nodes n) hdone).2.larger
  have hstays : ∀ i < s.nodes.curNode, ¬ Askew w s.nodes i → i < t.nodes.curNode ∧
      nodePos w (s.nodes.nodes i) = nodePos w (t.nodes.nodes i) ∧ ¬ Askew w t.nodes i := by
    intro i hi hi'
    rw [hnodes]
    exact ⟨hi.trans_le hle, (hlarger.nodePos_eq hi).symm, hkeeps i hi hi'⟩
  constructor
  · rw [hnodes]
    exact hsettled
  · intro i endPos hi
    rcases hfound with hsame | hnow
    · rw [hsame] at hi
      obtain ⟨hlt, rfl, hi'⟩ := h.found i endPos hi
      exact hstays i hlt hi'
    · obtain ⟨rfl, rfl⟩ := Prod.mk.inj (Option.some.inj (hnow.symm.trans hi))
      exact hstays n hn hnot

/-- The first round straightens the state, or the creature is where it wants to be. -/
theorem round_init (hcorners : CornersFree w targetPos fpp) :
    (∀ t, round w targetPos fpp (.init w) = .leave t →
      ∀ i endPos, t.found = some (i, endPos) → (t.nodes.nodes i).parent = none) ∧
    ∀ t, round w targetPos fpp (.init w) = .again t → Straightened w targetPos fpp t := by
  have hinit : Sound w (.init w.position.x w.position.y) := sound_init
  have hchosen : ∀ n, (State.init w).nodes.getBestNode = some n → n = 0 := fun n hbest =>
    Nat.lt_one_iff.mp (getBestNode_spec hbest).1
  constructor
  · intro t hround i endPos hi
    obtain ⟨hnodes, hsame | ⟨n, hbest, hnow⟩⟩ := (round_cases w targetPos fpp _).1 t hround
    · rw [hsame] at hi
      exact absurd hi (by simp [State.init])
    · obtain rfl := hchosen n hbest
      obtain ⟨rfl, -⟩ := Prod.mk.inj (Option.some.inj (hnow.symm.trans hi))
      rw [hnodes]
      rfl
  · intro t hround
    obtain ⟨n, found, ns', hbest, hdone, hnodes, hfound⟩ :=
      (round_cases w targetPos fpp _).2 t hround
    obtain rfl := hchosen n hbest
    have hsettled := settled_first hcorners hdone
    constructor
    · rw [hnodes]
      exact hsettled
    · intro i endPos hi
      have hnow : t.found = some (0, w.position) := by
        rcases hfound with hsame | hnow
        · rw [hsame] at hi
          exact absurd hi (by simp [State.init])
        · rw [hnow]
          exact congrArg (fun pos => some (0, pos)) hinit.nodePos_zero
      obtain ⟨rfl, rfl⟩ := Prod.mk.inj (Option.some.inj (hnow.symm.trans hi))
      rw [hnodes]
      refine ⟨hsettled.sound.curNode_pos, hsettled.sound.nodePos_zero.symm, fun haskew => ?_⟩
      rw [Askew, hsettled.sound.start] at haskew
      exact absurd haskew.1 (by simp)

theorem Straightened.search_cardinal (hdiagonal : fpp.allowDiagonal = false) :
    ∀ {fuel : ℕ} {s : State} {dirList : List Direction}, Straightened w targetPos fpp s →
      search w targetPos fpp fuel s = some (.found dirList) → ∀ d ∈ dirList, Cardinal d := by
  intro fuel
  induction fuel with
  | zero => exact fun _ h => absurd h (by simp [search])
  | succ fuel ih =>
    intro s dirList h hsearch
    rw [search] at hsearch
    cases hround : round w targetPos fpp s with
    | again t =>
      rw [hround] at hsearch
      exact ih (h.again hdiagonal hround) hsearch
    | leave t =>
      rw [hround] at hsearch
      have ht := h.leave hround
      cases hfound : t.found with
      | none =>
        simp only [hfound] at hsearch
        exact absurd hsearch (by simp)
      | some found =>
        obtain ⟨i, endPos⟩ := found
        obtain ⟨hi, rfl, hnot⟩ := ht.found i endPos hfound
        simp only [hfound] at hsearch
        obtain ⟨l, hback, hl⟩ := Option.map_eq_some_iff.mp hsearch
        obtain rfl := Answer.found.inj hl
        exact ht.nodes.walkBack_cardinal hi hnot (by simp) hback
    | returnFalse =>
      rw [hround] at hsearch
      exact absurd hsearch (by simp)
    | nullTile =>
      rw [hround] at hsearch
      exact absurd hsearch (by simp)

end TibiaServer.World.PathSearch
