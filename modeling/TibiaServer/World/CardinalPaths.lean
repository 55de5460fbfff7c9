import TibiaServer.World.PathCorners
/-!
# Paths without diagonal steps

With `allowDiagonal` off only the first step of a path can be diagonal.  It is not where each
diagonal neighbor of the creature has a free corner, and it can be wherever a diagonal neighbor
can be walked to at all.
-/

namespace TibiaServer.World.PathSearch

open AStarNodes (key createOpenNode_eq_some getMapWalkCost)

variable {τ : Type} {w : Walker τ} {targetPos : Position} {fpp : FindPathParams}
  {ns : AStarNodes} {n f : ℕ} {pos : Position} {tile : τ}

/-! ## A walk onto a diagonal square

A target that nothing but its own square is in range of shows the diagonal step.
-/

def onto : FindPathParams where
  clearSight := false
  allowDiagonal := false
  keepDistance := true
  minTargetDist := 0
  maxTargetDist := 0

theorem isInRange_onto {d p : Position} :
    FrozenPathingConditionCall.isInRange d onto p pos = true ↔ pos.x = d.x ∧ pos.y = d.y := by
  rw [← UInt16.toNat_inj, ← UInt16.toNat_inj]
  simp [FrozenPathingConditionCall.isInRange, onto, Position.getX, Position.getY]
  omega

theorem visit_onto_of_ne {d : Position} (hz : pos.z = d.z) (hne : pos ≠ d) :
    visit w d onto n f pos ns = .skip := by
  have hout : FrozenPathingConditionCall.isInRange d onto w.position pos = false := by
    apply Bool.eq_false_iff.mpr
    intro hin
    obtain ⟨hx, hy⟩ := isInRange_onto.mp hin
    refine hne (Position.ext_get ?_ ?_ hz)
    · exact congrArg (fun x : UInt16 => (x.toNat : ℤ)) hx
    · exact congrArg (fun y : UInt16 => (y.toNat : ℤ)) hy
  unfold visit
  dsimp only
  rw [if_neg (fun h => h.1 rfl), if_pos (by rw [hout]; rfl)]

variable (w) in
/-- The nodes once the square `d` beside the creature has been opened. -/
def withSquare (d : Position) (tile : τ) : AStarNodes :=
  let ns := AStarNodes.init w.position.x w.position.y
  { ns with
    nodes := Function.update ns.nodes 1
      ⟨some 0, stepCost w (ns.nodes 0) d tile, d.x, d.y⟩
    openNodes := Function.update ns.openNodes 1 true
    nodeTable := Function.update ns.nodeTable (key d.x d.y) (some 1)
    curNode := 2 }

theorem Diagonal.ne {p d : Position} (h : Diagonal p d) : ¬ (d.x = p.x ∧ d.y = p.y) := by
  rintro ⟨hx, -⟩
  have hdx := h.1
  rw [hx, sub_self] at hdx
  exact absurd hdx (by decide)

theorem expand_onto {d : Position} (found : Bool) (hd : Diagonal w.position d)
    (hwalk : w.canWalkTo d = some tile) : ∀ {l : List Position}, (∀ pos ∈ l, pos.z = d.z) →
    expand w d onto found 0 0 l (withSquare w d tile) = .done (withSquare w d tile) ∧
      (d ∈ l → expand w d onto found 0 0 l (.init w.position.x w.position.y) =
        .done (withSquare w d tile)) := by
  have hin : FrozenPathingConditionCall.isInRange d onto w.position d = true :=
    isInRange_onto.mpr ⟨rfl, rfl⟩
  have hagain : visit w d onto 0 0 d (withSquare w d tile) = .skip := by
    unfold visit
    dsimp only
    rw [if_neg (fun h => h.1 rfl), if_neg (by rw [hin]; exact Bool.false_ne_true)]
    have htable : (withSquare w d tile).getNodeByPosition d.x d.y = some 1 :=
      Function.update_self ..
    rw [htable, canWalkTo_getTile hwalk]
    dsimp only
    rw [if_pos]
    have hstart : (withSquare w d tile).nodes 0 =
        (AStarNodes.init w.position.x w.position.y).nodes 0 := by
      simp [withSquare]
    have hnew : ((withSquare w d tile).nodes 1).f =
        stepCost w ((AStarNodes.init w.position.x w.position.y).nodes 0) d tile := by
      simp [withSquare]
    rw [hstart, hnew, stepCost]
    omega
  have hfirst : visit w d onto 0 0 d (.init w.position.x w.position.y) =
      .take (withSquare w d tile) := by
    unfold visit
    dsimp only
    rw [if_neg (fun h => h.1 rfl), if_neg (by rw [hin]; exact Bool.false_ne_true)]
    have htable : (AStarNodes.init w.position.x w.position.y).getNodeByPosition d.x d.y = none := by
      simp only [AStarNodes.getNodeByPosition, AStarNodes.init, AStarNodes.key_inj]
      exact if_neg hd.ne
    rw [htable, hwalk]
    dsimp only
    have hcreate : (AStarNodes.init w.position.x w.position.y).createOpenNode 0 d.x d.y
        (0 + getMapWalkCost ((AStarNodes.init w.position.x w.position.y).nodes 0) d +
          w.getTileWalkCost tile) = some (withSquare w d tile) := by
      refine createOpenNode_eq_some.mpr ⟨(by decide : 1 < MAX_NODES), ?_⟩
      rw [Nat.zero_add]
      rfl
    rw [hcreate]
  intro l
  induction l with
  | nil => exact fun _ => ⟨rfl, fun hmem => absurd hmem (by simp)⟩
  | cons pos rest ih =>
    intro hl
    have hz := hl pos List.mem_cons_self
    obtain ⟨hopened, hclosed⟩ := ih fun p hp => hl p (List.mem_cons_of_mem pos hp)
    by_cases hpos : pos = d
    · subst hpos
      rw [expand, hagain, expand, hfirst]
      exact ⟨hopened, fun _ => hopened⟩
    · rw [expand, visit_onto_of_ne hz hpos, expand, visit_onto_of_ne hz hpos]
      exact ⟨hopened, fun hmem => hclosed (List.mem_of_ne_of_mem (Ne.symm hpos) hmem)⟩

theorem diagonal_mem_start {d : Position} (hd : Diagonal w.position d) (hz : d.z = w.position.z) :
    d ∈ neighbors w onto (.init w.position.x w.position.y) 0 := by
  rw [neighbors_start rfl]
  have hdx : (w.position.x.toNat : ℤ) - d.x.toNat = 1 ∨
      (w.position.x.toNat : ℤ) - d.x.toNat = -1 := abs_eq_one hd.1
  have hdy : (w.position.y.toNat : ℤ) - d.y.toNat = 1 ∨
      (w.position.y.toNat : ℤ) - d.y.toNat = -1 := abs_eq_one hd.2
  have hmem : ∀ {x y : ℤ}, x = 1 ∨ x = -1 → y = 1 ∨ y = -1 → (-x, -y) ∈ allNeighbors := by
    rintro x y (rfl | rfl) (rfl | rfl) <;> decide
  refine mem_squares (hmem hdx hdy) ?_ ?_ hz
  · change (d.x.toNat : ℤ) = w.position.x.toNat + -((w.position.x.toNat : ℤ) - d.x.toNat)
    omega
  · change (d.y.toNat : ℤ) = w.position.y.toNat + -((w.position.y.toNat : ℤ) - d.y.toNat)
    omega

theorem tileWalkCost_le (tile : τ) : w.getTileWalkCost tile ≤ 210 := by
  unfold Walker.getTileWalkCost MAP_NORMALWALKCOST
  split_ifs <;> decide

theorem stepDirection_diagonal {dx dy : ℤ} (hx : |dx| = 1) (hy : |dy| = 1) :
    ∃ d, stepDirection dx dy = some d ∧ ¬ Cardinal d := by
  rcases abs_eq_one hx with rfl | rfl <;> rcases abs_eq_one hy with rfl | rfl
  · exact ⟨.NORTHWEST, rfl, by simp [Cardinal]⟩
  · exact ⟨.SOUTHWEST, rfl, by simp [Cardinal]⟩
  · exact ⟨.NORTHEAST, rfl, by simp [Cardinal]⟩
  · exact ⟨.SOUTHEAST, rfl, by simp [Cardinal]⟩

theorem round_onto_start {d : Position} (hd : Diagonal w.position d)
    (hz : d.z = w.position.z) (hwalk : w.canWalkTo d = some tile) :
    round w d onto (.init w) = .again
      { nodes := (withSquare w d tile).closeNode 0, bestMatch := 0, found := none } := by
  have hnear : ∀ pos ∈ neighbors w onto (.init w.position.x w.position.y) 0, pos.z = d.z := by
    rw [hz]
    exact fun pos hpos => (neighbors_near w onto _ 0 pos hpos).1
  have hexpand := (expand_onto false hd hwalk hnear).2 (diagonal_mem_start hd hz)
  have hbest : (State.init w).nodes.getBestNode = some 0 := by
    simp [State.init, AStarNodes.getBestNode, AStarNodes.init, AStarNodes.better]
  have hcall : FrozenPathingConditionCall.call d onto w.isSightClear w.position
      (nodePos w ((State.init w).nodes.nodes 0)) 0 = none := by
    have hout : FrozenPathingConditionCall.isInRange d onto w.position
        (nodePos w ((State.init w).nodes.nodes 0)) = false := by
      apply Bool.eq_false_iff.mpr
      intro hin
      obtain ⟨hx, hy⟩ := isInRange_onto.mp hin
      exact hd.ne ⟨hx.symm, hy.symm⟩
    unfold FrozenPathingConditionCall.call
    rw [if_pos (by rw [hout]; rfl)]
  unfold round
  rw [if_neg (fun h => absurd h.2 (by simp [State.init, AStarNodes.init])), hbest]
  dsimp only
  rw [show (State.init w).bestMatch = 0 from rfl, hcall]
  rw [if_neg (fun h => absurd h.1 (by simp)), record_nodes]
  have hdone : expand w d onto ((State.init w).record 0
      (nodePos w ((State.init w).nodes.nodes 0)) none).found.isSome 0
      ((State.init w).nodes.nodes 0).f (neighbors w onto (State.init w).nodes 0) (State.init w).nodes =
      .done (withSquare w d tile) := hexpand
  rw [hdone]
  rfl

theorem round_onto_square {d : Position} (hz : d.z = w.position.z) :
    round w d onto
      { nodes := (withSquare w d tile).closeNode 0, bestMatch := 0, found := none } = .leave
      { nodes := (withSquare w d tile).closeNode 0, bestMatch := 0, found := some (1, d) } := by
  have hsquare : nodePos w (((withSquare w d tile).closeNode 0).nodes 1) = d := by
    simp [withSquare, nodePos, ← hz]
  have hbest : ((withSquare w d tile).closeNode 0).getBestNode = some 1 := by
    have hcost := tileWalkCost_le (w := w) tile
    have hless : stepCost w ((AStarNodes.init w.position.x w.position.y).nodes 0) d tile <
        2147483647 := by
      unfold stepCost getMapWalkCost MAP_DIAGONALWALKCOST MAP_NORMALWALKCOST
      split_ifs <;> omega
    have hrange : List.range 2 = [0, 1] := rfl
    simp [AStarNodes.getBestNode, withSquare, AStarNodes.closeNode, hrange, AStarNodes.better,
      hless]
  have hcall : FrozenPathingConditionCall.call d onto w.isSightClear w.position
      (nodePos w (((withSquare w d tile).closeNode 0).nodes 1)) 0 = some 0 := by
    rw [hsquare]
    have hin : FrozenPathingConditionCall.isInRange d onto w.position d = true :=
      isInRange_onto.mpr ⟨rfl, rfl⟩
    unfold FrozenPathingConditionCall.call
    rw [if_neg (by rw [hin]; exact Bool.false_ne_true), if_neg (by simp [onto])]
    simp [onto, Position.getDistanceX, Position.getDistanceY, Position.getOffsetX,
      Position.getOffsetY]
  unfold round
  dsimp only
  rw [if_neg, hbest]
  · dsimp only
    rw [hcall, hsquare, if_pos ⟨rfl, rfl⟩]
    rfl
  · rintro ⟨-, hclosed⟩
    exact absurd hclosed (by simp [withSquare, AStarNodes.closeNode, AStarNodes.init])

/-- The creature steps straight onto the square. -/
theorem getPathMatching_onto {d : Position} (hd : Diagonal w.position d)
    (hz : d.z = w.position.z) (hwalk : w.canWalkTo d = some tile) :
    ∃ dir, getPathMatching w d onto 3 = some (.found [dir]) ∧ ¬ Cardinal dir := by
  obtain ⟨dir, hdir, hnot⟩ := stepDirection_diagonal hd.1 hd.2
  refine ⟨dir, ?_, hnot⟩
  have hnew : ((withSquare w d tile).closeNode 0).nodes 1 = ⟨some 0, stepCost w
      ((AStarNodes.init w.position.x w.position.y).nodes 0) d tile, d.x, d.y⟩ := by
    simp [withSquare]
  have hstart : ((withSquare w d tile).closeNode 0).nodes 0 =
      (AStarNodes.init w.position.x w.position.y).nodes 0 := by
    simp [withSquare]
  rw [getPathMatching, search, round_onto_start hd hz hwalk]
  dsimp only
  rw [search, round_onto_square hz]
  dsimp only
  have hnone : ((AStarNodes.init w.position.x w.position.y).nodes 0).parent = none := rfl
  rw [hnew, walkBack, hstart, hnone, walkBack]
  have hoffset : stepDirection
      ((nodePos w ((AStarNodes.init w.position.x w.position.y).nodes 0)).getOffsetX d)
      ((nodePos w ((AStarNodes.init w.position.x w.position.y).nodes 0)).getOffsetY d) =
      some dir := hdir
  rw [hoffset]
  rfl

/-! ## Every list returned -/

theorem getPathMatching_cardinal {fuel : ℕ} {dirList : List Direction}
    (hcorners : CornersFree w targetPos fpp) (hdiagonal : fpp.allowDiagonal = false)
    (h : getPathMatching w targetPos fpp fuel = some (.found dirList)) :
    ∀ d ∈ dirList, Cardinal d := by
  obtain ⟨hleave, hagain⟩ := round_init (w := w) hcorners
  cases fuel with
  | zero => exact absurd h (by simp [getPathMatching, search])
  | succ fuel =>
    rw [getPathMatching, search] at h
    cases hround : round w targetPos fpp (.init w) with
    | again t =>
      rw [hround] at h
      exact (hagain t hround).search_cardinal hdiagonal h
    | leave t =>
      rw [hround] at h
      cases hfound : t.found with
      | none =>
        simp only [hfound] at h
        exact absurd h (by simp)
      | some found =>
        obtain ⟨i, endPos⟩ := found
        simp only [hfound, hleave t hround i endPos hfound, walkBack] at h
        obtain rfl : [] = dirList := by simpa using h
        exact fun d hd => absurd hd (by simp)
    | returnFalse =>
      rw [hround] at h
      exact absurd h (by simp)
    | nullTile =>
      rw [hround] at h
      exact absurd h (by simp)

/-- A list without diagonal steps, where each diagonal neighbor of the creature has a free
corner; such lists only, for all targets and parameters at once, where no diagonal neighbor can
be walked to; and with diagonal steps allowed, a list that ends where the condition accepts, on
a map without a seam. -/
theorem getPathMatching_cardinal_iff (w : Walker τ) :
    (∀ targetPos fpp, CornersFree w targetPos fpp → fpp.allowDiagonal = false →
      ∀ fuel dirList, getPathMatching w targetPos fpp fuel = some (.found dirList) →
        ∀ d ∈ dirList, Cardinal d) ∧
    ((∀ targetPos fpp, fpp.allowDiagonal = false →
      ∀ fuel dirList, getPathMatching w targetPos fpp fuel = some (.found dirList) →
        ∀ d ∈ dirList, Cardinal d) ↔
      ∀ pos, pos.z = w.position.z → Diagonal w.position pos → w.canWalkTo pos = none) ∧
    ∀ targetPos fpp, NoSeam w → fpp.allowDiagonal = true →
      ∀ fuel dirList, getPathMatching w targetPos fpp fuel = some (.found dirList) →
        ∃ endPos, LeadsTo w w.position dirList endPos ∧ Accepts w targetPos fpp endPos := by
  refine ⟨fun targetPos fpp hcorners hdiagonal fuel dirList h =>
    getPathMatching_cardinal hcorners hdiagonal h, ⟨fun hall pos hz hpos => ?_,
      fun hnone targetPos fpp hdiagonal fuel dirList h => ?_⟩, ?_⟩
  · cases hwalk : w.canWalkTo pos with
    | none => rfl
    | some tile =>
        obtain ⟨dir, hfound, hnot⟩ := getPathMatching_onto hpos hz hwalk
        exact absurd (hall pos onto rfl 3 [dir] hfound dir List.mem_cons_self) hnot
  · refine getPathMatching_cardinal (fun d hz hd _ hwalk => ?_) hdiagonal h
    rw [hnone d hz hd] at hwalk
    exact absurd hwalk (by simp)
  · intro targetPos fpp hseam _ fuel dirList h
    have hinit : Inv w targetPos fpp (.init w) := inv_init
    obtain ⟨answer, rounds, hends, -, hleads⟩ := search_ends (.init w) hinit
    exact hleads hseam dirList (search_unique (hends rounds le_rfl) h)

/-- A player on one of four squares of a block, with nothing in the way. -/
def onBlock : Walker Unit where
  getTile p :=
    if p ∈ [⟨100, 100, 7⟩, ⟨101, 100, 7⟩, ⟨100, 101, 7⟩, (⟨101, 101, 7⟩ : Position)] then some ()
    else none
  position := ⟨100, 100, 7⟩
  getWalkCache _ := 2
  queryAdd _ := true
  hasTopVisibleCreature _ := false
  avoidsField _ := false
  blocksProjectile _ := false
  onTile := by decide

def straightNextTo : FindPathParams := { nextTo with allowDiagonal := false }

theorem onBlock_cornersFree (targetPos : Position) :
    CornersFree onBlock targetPos straightNextTo := by
  intro d hz hd _ hwalk
  obtain ⟨tile, htile⟩ := Option.isSome_iff_exists.mp hwalk
  have hthere := canWalkTo_getTile htile
  have hsquare : d = ⟨101, 101, 7⟩ := by
    have hmem : d ∈ [⟨100, 100, 7⟩, ⟨101, 100, 7⟩, ⟨100, 101, 7⟩, (⟨101, 101, 7⟩ : Position)] := by
      by_contra hout
      have hnone : onBlock.getTile d = none := if_neg hout
      rw [hnone] at hthere
      exact absurd hthere (by simp)
    simp only [List.mem_cons, List.not_mem_nil, or_false] at hmem
    rcases hmem with rfl | rfl | rfl | rfl
    · exact absurd hd.1 (by decide)
    · exact absurd hd.2 (by decide)
    · exact absurd hd.1 (by decide)
    · rfl
  subst hsquare
  refine ⟨⟨101, 100, 7⟩, ⟨rfl, .inl ⟨rfl, rfl⟩⟩, ⟨fun h => h.1 rfl, Bool.false_ne_true⟩,
    (), by decide, by decide⟩

/-- Around the corner, two squares down from the north-western square of the block. -/
theorem onBlock_cardinal :
    getPathMatching onBlock ⟨102, 102, 7⟩ straightNextTo 20 = some (.found [.SOUTH, .EAST]) ∧
      ∀ d ∈ [Direction.SOUTH, Direction.EAST], Cardinal d := by
  have hfound : getPathMatching onBlock ⟨102, 102, 7⟩ straightNextTo 20 =
      some (.found [.SOUTH, .EAST]) := by
    decide +kernel
  exact ⟨hfound, (getPathMatching_cardinal_iff onBlock).1 _ _ (onBlock_cornersFree _) rfl 20 _
    hfound⟩

/-- With the corners missing the player steps diagonally. -/
theorem steps_diagonally : ¬ (∀ (τ : Type) (w : Walker τ) (targetPos : Position)
    (fpp : FindPathParams), fpp.allowDiagonal = false → ∀ fuel dirList,
      getPathMatching w targetPos fpp fuel = some (.found dirList) →
        ∀ d ∈ dirList, Cardinal d) := by
  intro hall
  have hfound : getPathMatching (onTwoSquares ⟨100, 100, 7⟩ ⟨101, 101, 7⟩) ⟨102, 102, 7⟩
      straightNextTo 20 = some (.found [.SOUTHEAST]) := by
    decide +kernel
  exact absurd (hall Unit _ _ straightNextTo rfl 20 _ hfound .SOUTHEAST List.mem_cons_self)
    (by simp [Cardinal])

end TibiaServer.World.PathSearch
