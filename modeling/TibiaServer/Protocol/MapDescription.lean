import TibiaServer.Output.NetworkMessage
import TibiaServer.World.Position
/-!
# Map descriptions

`GetMapDescription` writes the squares of a view floor by floor, each floor column by
column.  Runs of squares without a tile are counted in `skip`, and a marker of the
count and `0xFF` stands behind each description and each run.
-/

namespace TibiaServer.Protocol

open TibiaServer.Output

/-- Descriptions of tiles and how a client reads one: it finds the end, where the marker
is. -/
structure Reader (Description : Type) where
  empty : Description
  values : Description → List (List UInt8)
  read : List UInt8 → Description × List UInt8
  values_empty : values empty = []
  read_values : ∀ description skip rest,
    read ((values description).flatten ++ skip :: 0xFF :: rest) =
      (description, skip :: 0xFF :: rest)

/-! ## Writing -/

section Writing

variable {Description : Type} (reader : Reader Description) {Tile Known : Type}
  (GetTileDescription : Known → Tile → Description × Known)

/-- The values that were added to the message so far, the count of squares without a
tile, and the creatures that the client knows. -/
structure Writer (Known : Type) where
  written : List (List UInt8)
  skip : ℤ
  known : Known

/-- `msg.addByte(skip); msg.addByte(0xFF);` -/
def marker (skip : ℤ) : List (List UInt8) := [[UInt8.ofNat skip.toNat], [0xFF]]

/-- One square of `GetFloorDescription`. -/
def square (w : Writer Known) : Option Tile → Writer Known
  | some tile =>
    let written := if w.skip ≥ 0 then w.written ++ marker w.skip else w.written
    let description := GetTileDescription w.known tile
    { written := written ++ reader.values description.1, skip := 0, known := description.2 }
  | none =>
    if w.skip = 0xFE then { w with written := w.written ++ marker 0xFF, skip := -1 }
    else { w with skip := w.skip + 1 }

/-- The conversion of the arguments of `Map::getTile`. -/
def toUInt16 (n : ℤ) : UInt16 := UInt16.ofNat (n % 65536).toNat

variable (getTile : UInt16 → UInt16 → UInt8 → Option Tile)

def GetFloorDescription (x y : ℤ) (z : ℕ) (width height : ℕ) (offset : ℤ) (w : Writer Known) :
    Writer Known :=
  (List.range width).foldl (fun w (nx : ℕ) =>
    (List.range height).foldl (fun w (ny : ℕ) =>
      square reader GetTileDescription w
        (getTile (toUInt16 (x + nx + offset)) (toUInt16 (y + ny + offset)) (UInt8.ofNat z)))
      w)
    w

def MAP_MAX_LAYERS : ℕ := 16

/-- `for (nz = startz; nz != endz + zstep; nz += zstep)` -/
def floors (z : Fin MAP_MAX_LAYERS) : List ℕ :=
  if z.val > 7 then List.range' (z - 2) (min (MAP_MAX_LAYERS - 1) (z + 2) + 1 - (z - 2))
  else (List.range 8).reverse

/-- A run at the end needs its marker too. -/
def Writer.finish (w : Writer Known) : List (List UInt8) :=
  if w.skip ≥ 0 then w.written ++ marker w.skip else w.written

/-- What `GetMapDescription` adds to the message. -/
def mapValues (x y : ℤ) (z : Fin MAP_MAX_LAYERS) (width height : ℕ) (known : Known) :
    List (List UInt8) :=
  ((floors z).foldl (fun w (nz : ℕ) =>
    GetFloorDescription reader GetTileDescription getTile x y nz width height
      ((z : ℤ) - (nz : ℤ)) w)
    { written := [], skip := -1, known := known }).finish

def GetMapDescription (x y : ℤ) (z : Fin MAP_MAX_LAYERS) (width height : ℕ) (known : Known)
    (msg : NetworkMessage) : NetworkMessage :=
  msg.adds (mapValues reader GetTileDescription getTile x y z width height known)

/-- The squares of the view in the order of the loops. -/
def squares (x y : ℤ) (z : Fin MAP_MAX_LAYERS) (width height : ℕ) : List (Option Tile) :=
  (floors z).flatMap fun (nz : ℕ) =>
    (List.range width).flatMap fun (nx : ℕ) =>
      (List.range height).map fun (ny : ℕ) =>
        getTile (toUInt16 (x + nx + ((z : ℤ) - (nz : ℤ)))) (toUInt16 (y + ny + ((z : ℤ) - (nz : ℤ))))
          (UInt8.ofNat nz)

/-- The descriptions of the squares; the creatures known grow from tile to tile. -/
def descriptions (known : Known) : List (Option Tile) → List Description
  | [] => []
  | some tile :: rest =>
    (GetTileDescription known tile).1 :: descriptions (GetTileDescription known tile).2 rest
  | none :: rest => reader.empty :: descriptions known rest

end Writing

/-! ## Reading -/

/-- The client reads a description, which is empty where no tile is, then a marker, and
skips as many squares; `squares` are left to fill. -/
def decodeSquares {Description : Type} (reader : Reader Description) (squares : ℕ) (stream : List UInt8) :
    Option (List Description) :=
  match squares with
  | 0 => if stream = [] then some [] else none
  | squares + 1 =>
    match reader.read stream with
    | (description, skip :: 0xFF :: rest) =>
      if skip.toNat ≤ squares then
        (decodeSquares reader (squares - skip.toNat) rest).map fun later =>
          description :: (List.replicate skip.toNat reader.empty ++ later)
      else none
    | _ => none
termination_by squares
decreasing_by exact Nat.lt_succ_of_le (Nat.sub_le squares skip.toNat)

section Decoding

variable {Description : Type} {reader : Reader Description} {Tile Known : Type}
  {GetTileDescription : Known → Tile → Description × Known}

/-- The bytes that the squares add to a writer with this count. -/
def stream (reader : Reader Description) (GetTileDescription : Known → Tile → Description × Known)
    (skip : ℤ) (known : Known) (squares : List (Option Tile)) : List UInt8 :=
  (squares.foldl (square reader GetTileDescription) ⟨[], skip, known⟩).finish.flatten

theorem square_written (w : Writer Known) (tile : Option Tile) :
    ∃ added skip known, square reader GetTileDescription w tile = ⟨w.written ++ added, skip, known⟩ ∧
      square reader GetTileDescription ⟨[], w.skip, w.known⟩ tile = ⟨added, skip, known⟩ := by
  cases tile with
  | some tile =>
    by_cases hskip : w.skip ≥ 0
    · simp only [square, if_pos hskip, List.append_assoc]
      exact ⟨_, _, _, rfl, rfl⟩
    · simp only [square, if_neg hskip]
      exact ⟨_, _, _, rfl, rfl⟩
  | none =>
    by_cases hfull : w.skip = 0xFE
    · simp only [square, if_pos hfull]
      exact ⟨_, _, _, rfl, rfl⟩
    · simp only [square, if_neg hfull]
      exact ⟨[], _, _, by rw [List.append_nil], rfl⟩

/-- What was written before stays in front. -/
theorem finish_foldl (squares : List (Option Tile)) (w : Writer Known) :
    (squares.foldl (square reader GetTileDescription) w).finish.flatten =
      w.written.flatten ++ stream reader GetTileDescription w.skip w.known squares := by
  induction squares generalizing w with
  | nil =>
    by_cases hskip : w.skip ≥ 0
    · simp [stream, Writer.finish, hskip]
    · simp [stream, Writer.finish, hskip]
  | cons tile squares ih =>
    obtain ⟨added, skip, known, hw, hempty⟩ := square_written w tile
    calc ((tile :: squares).foldl (square reader GetTileDescription) w).finish.flatten
        = (w.written ++ added).flatten ++ stream reader GetTileDescription skip known squares := by
          rw [List.foldl_cons, hw, ih]
      _ = w.written.flatten ++
            (added.flatten ++ stream reader GetTileDescription skip known squares) := by
          rw [List.flatten_append, List.append_assoc]
      _ = w.written.flatten ++ stream reader GetTileDescription w.skip w.known (tile :: squares) := by
          conv_rhs => unfold stream
          rw [List.foldl_cons, hempty, ih]

theorem flatten_marker (skip : ℤ) : (marker skip).flatten = [UInt8.ofNat skip.toNat, 0xFF] := rfl

theorem stream_nil (skip : ℤ) (known : Known) :
    stream reader GetTileDescription skip known [] =
      if skip ≥ 0 then [UInt8.ofNat skip.toNat, 0xFF] else [] := by
  by_cases hskip : skip ≥ 0
  · simp [stream, Writer.finish, hskip, flatten_marker]
  · simp [stream, Writer.finish, hskip]

theorem stream_some (skip : ℤ) (known : Known) (tile : Tile) (squares : List (Option Tile)) :
    stream reader GetTileDescription skip known (some tile :: squares) =
      (if skip ≥ 0 then [UInt8.ofNat skip.toNat, 0xFF] else []) ++
        ((reader.values (GetTileDescription known tile).1).flatten ++
          stream reader GetTileDescription 0 (GetTileDescription known tile).2 squares) := by
  conv_lhs => unfold stream
  rw [List.foldl_cons, finish_foldl]
  by_cases hskip : skip ≥ 0
  · simp only [square, if_pos hskip, List.nil_append, List.flatten_append, flatten_marker,
      List.append_assoc]
  · simp only [square, if_neg hskip, List.nil_append]

theorem stream_none (skip : ℤ) (known : Known) (squares : List (Option Tile)) :
    stream reader GetTileDescription skip known (none :: squares) =
      if skip = 0xFE then
        0xFF :: 0xFF :: stream reader GetTileDescription (-1) known squares
      else stream reader GetTileDescription (skip + 1) known squares := by
  conv_lhs => unfold stream
  rw [List.foldl_cons, finish_foldl]
  by_cases hfull : skip = 0xFE
  · simp only [square, if_pos hfull]
    rfl
  · simp only [square, if_neg hfull]
    rfl

theorem decodeSquares_succ {squares : ℕ} {bytes rest : List UInt8} {skip : UInt8}
    {description : Description} {later : List Description}
    (hread : reader.read bytes = (description, skip :: 0xFF :: rest))
    (hskip : skip.toNat ≤ squares)
    (hlater : decodeSquares reader (squares - skip.toNat) rest = some later) :
    decodeSquares reader (squares + 1) bytes =
      some (description :: (List.replicate skip.toNat reader.empty ++ later)) := by
  rw [decodeSquares, hread]
  simp only
  rw [if_pos hskip, hlater, Option.map_some]

/-- A marker without a description in front of it reads as the empty one. -/
theorem read_marker (skip : UInt8) (rest : List UInt8) :
    reader.read (skip :: 0xFF :: rest) = (reader.empty, skip :: 0xFF :: rest) := by
  have hread := reader.read_values reader.empty skip rest
  rwa [reader.values_empty] at hread

/-- With a run of `skip` squares pending, the stream goes on with the marker of the whole
run, and behind it the client is where the writer was. -/
theorem decodeSquares_stream (squares : List (Option Tile)) :
    (∀ known : Known, decodeSquares reader squares.length
        (stream reader GetTileDescription (-1) known squares) =
      some (descriptions reader GetTileDescription known squares)) ∧
    ∀ (known : Known) (skip : ℕ), skip < 255 → ∃ run rest later,
      stream reader GetTileDescription skip known squares =
          UInt8.ofNat (skip + run) :: 0xFF :: rest ∧
        run ≤ squares.length ∧ skip + run ≤ 255 ∧
        descriptions reader GetTileDescription known squares =
          List.replicate run reader.empty ++ later ∧
        decodeSquares reader (squares.length - run) rest = some later := by
  induction squares with
  | nil =>
    constructor
    · intro known
      rw [stream_nil, if_neg (by omega), List.length_nil, decodeSquares, if_pos rfl]
      rfl
    · intro known skip hskip
      refine ⟨0, [], [], ?_, le_rfl, by omega, rfl, ?_⟩
      · rw [stream_nil, if_pos (Int.natCast_nonneg skip), Int.toNat_natCast, Nat.add_zero]
      · rw [List.length_nil, decodeSquares, if_pos rfl]
  | cons tile squares ih =>
    obtain ⟨ihFresh, ihRun⟩ := ih
    cases tile with
    | some tile =>
      have hfresh : ∀ known : Known, decodeSquares reader (squares.length + 1)
          (stream reader GetTileDescription (-1) known (some tile :: squares)) =
            some (descriptions reader GetTileDescription known (some tile :: squares)) := by
        intro known
        obtain ⟨run, rest, later, hstream, hrun, hlimit, hlist, hdecode⟩ :=
          ihRun (GetTileDescription known tile).2 0 (by omega)
        have htoNat : (UInt8.ofNat (0 + run)).toNat = run := by
          rw [UInt8.toNat_ofNat']
          omega
        rw [stream_some, if_neg (by omega), List.nil_append]
        have hzero : ((0 : ℕ) : ℤ) = 0 := rfl
        rw [hzero] at hstream
        rw [hstream, descriptions, hlist]
        rw [← htoNat] at hdecode hrun
        rw [decodeSquares_succ (reader.read_values _ _ _) hrun hdecode, htoNat]
      refine ⟨hfresh, fun known skip hskip => ?_⟩
      refine ⟨0, _, _, ?_, Nat.zero_le _, by omega, rfl, hfresh known⟩
      rw [stream_some, if_pos (Int.natCast_nonneg skip), stream_some, if_neg (by omega),
        Int.toNat_natCast, Nat.add_zero]
      rfl
    | none =>
      constructor
      · intro known
        obtain ⟨run, rest, later, hstream, hrun, hlimit, hlist, hdecode⟩ :=
          ihRun known 0 (by omega)
        have htoNat : (UInt8.ofNat (0 + run)).toNat = run := by
          rw [UInt8.toNat_ofNat']
          omega
        rw [stream_none, if_neg (by omega)]
        have hzero : ((0 : ℕ) : ℤ) = 0 := rfl
        rw [hzero] at hstream
        have hnext : (-1 : ℤ) + 1 = 0 := rfl
        rw [hnext, hstream, descriptions, hlist, List.length_cons]
        rw [← htoNat] at hdecode hrun
        rw [decodeSquares_succ (read_marker _ _) hrun hdecode, htoNat]
      · intro known skip hskip
        rw [stream_none]
        by_cases hfull : skip = 254
        · subst hfull
          refine ⟨1, _, _, ?_, by simp, by omega, rfl, ihFresh known⟩
          rw [if_pos (show ((254 : ℕ) : ℤ) = 0xFE from rfl)]
          rfl
        · obtain ⟨run, rest, later, hstream, hrun, hlimit, hlist, hdecode⟩ :=
            ihRun known (skip + 1) (by omega)
          refine ⟨run + 1, rest, later, ?_, ?_, by omega, ?_, ?_⟩
          · rw [if_neg (by omega)]
            have hcast : ((skip + 1 : ℕ) : ℤ) = (skip : ℤ) + 1 := rfl
            rw [← hcast, hstream]
            congr 2
            omega
          · rw [List.length_cons]
            omega
          · rw [descriptions, hlist]
            rfl
          · rw [List.length_cons, Nat.add_sub_add_right]
            exact hdecode

variable {getTile : UInt16 → UInt16 → UInt8 → Option Tile}

theorem length_squares (x y : ℤ) (z : Fin MAP_MAX_LAYERS) (width height : ℕ) :
    (squares getTile x y z width height).length = (floors z).length * (width * height) := by
  unfold squares
  simp only [List.length_flatMap, List.length_map, List.length_range, List.map_const',
    List.sum_replicate_nat]

theorem flatten_mapValues (x y : ℤ) (z : Fin MAP_MAX_LAYERS) (width height : ℕ) (known : Known) :
    (mapValues reader GetTileDescription getTile x y z width height known).flatten =
      stream reader GetTileDescription (-1) known (squares getTile x y z width height) := by
  unfold mapValues GetFloorDescription stream squares
  simp only [List.foldl_flatMap, List.foldl_map]

/-- Where the message has room for it, the client reads from a map description what the
squares of the view were described as, in the order of the floors, columns and rows, and
nothing is left of it. -/
theorem GetMapDescription_decodes (x y : ℤ) (z : Fin MAP_MAX_LAYERS) (width height : ℕ)
    (known : Known) {msg : NetworkMessage} (hmsg : msg.Writing)
    (hroom : (mapValues reader GetTileDescription getTile x y z width height known).flatten.length +
      msg.position < maxBodyLength) :
    ∃ bytes,
      (GetMapDescription reader GetTileDescription getTile x y z width height known msg).body =
        msg.body ++ bytes ∧
      decodeSquares reader ((floors z).length * (width * height)) bytes =
        some (descriptions reader GetTileDescription known
          (squares getTile x y z width height)) := by
  refine ⟨_, NetworkMessage.body_adds hmsg hroom, ?_⟩
  have hdecode : decodeSquares reader _ (stream reader GetTileDescription (-1) known _) = some _ :=
    (decodeSquares_stream (squares getTile x y z width height)).1 known
  rw [length_squares] at hdecode
  rw [flatten_mapValues]
  exact hdecode

end Decoding

/-! ## Stacks on every square

A tile with ten stacks takes 30 bytes.  A view of eight floors of such tiles does not
fit into a message, which drops what it has no room for.
-/

section Items

/-- A client id that is no marker, and a count. -/
structure SentItem where
  low : UInt8
  high : UInt8
  count : UInt8
  plain : high ≠ 0xFF

def readItems : List UInt8 → List SentItem × List UInt8
  | low :: high :: count :: rest =>
    if h : high = 0xFF then ([], low :: high :: count :: rest)
    else (⟨low, high, count, h⟩ :: (readItems rest).1, (readItems rest).2)
  | bytes => ([], bytes)

def itemValues (items : List SentItem) : List (List UInt8) :=
  items.flatMap fun item => [[item.low, item.high], [item.count]]

theorem readItems_values (items : List SentItem) (skip : UInt8) (rest : List UInt8) :
    readItems ((itemValues items).flatten ++ skip :: 0xFF :: rest) =
      (items, skip :: 0xFF :: rest) := by
  induction items with
  | nil =>
    cases rest with
    | nil => rfl
    | cons byte rest => rfl
  | cons item items ih =>
    have hsplit : (itemValues (item :: items)).flatten ++ skip :: 0xFF :: rest =
        item.low :: item.high :: item.count ::
          ((itemValues items).flatten ++ skip :: 0xFF :: rest) := rfl
    rw [hsplit, readItems, dif_neg item.plain, ih]

def itemReader : Reader (List SentItem) where
  empty := []
  values := itemValues
  read := readItems
  values_empty := rfl
  read_values := readItems_values

theorem readItems_length (bytes : List UInt8) :
    3 * (readItems bytes).1.length + (readItems bytes).2.length = bytes.length := by
  induction bytes using readItems.induct with
  | case1 low count rest =>
    rw [readItems, dif_pos rfl, List.length_nil, Nat.mul_zero, Nat.zero_add]
  | case2 low high count rest h ih =>
    rw [readItems, dif_neg h]
    simp only [List.length_cons]
    omega
  | case3 bytes hshort =>
    rw [readItems.eq_2 _ hshort, List.length_nil, Nat.mul_zero, Nat.zero_add]

/-- What is read takes up its bytes. -/
theorem decodeSquares_length (squares : ℕ) (bytes : List UInt8) (list : List (List SentItem))
    (h : decodeSquares itemReader squares bytes = some list) :
    3 * (list.map List.length).sum ≤ bytes.length := by
  induction squares using Nat.strongRecOn generalizing bytes list with
  | ind squares ih =>
    cases squares with
    | zero =>
      rw [decodeSquares] at h
      split at h
      · cases h
        simp
      · cases h
    | succ squares =>
      rw [decodeSquares] at h
      split at h
      next description skip rest hread =>
        split at h
        · obtain ⟨later, hlater, rfl⟩ := Option.map_eq_some_iff.mp h
          have hrest := ih (squares - skip.toNat) (by omega) rest later hlater
          have hlength := readItems_length bytes
          have hread' : readItems bytes = (description, skip :: 0xFF :: rest) := hread
          have hempty : ((List.replicate skip.toNat itemReader.empty).map List.length).sum =
              0 := by
            rw [List.map_replicate, List.sum_replicate_nat]
            exact Nat.mul_zero _
          rw [hread'] at hlength
          simp only [List.length_cons] at hlength
          rw [List.map_cons, List.sum_cons, List.map_append, List.sum_append, hempty]
          omega
        · cases h
      next => cases h

def stack : SentItem := ⟨1, 0, 100, by decide⟩

def groundFloor : Fin MAP_MAX_LAYERS := ⟨7, by decide⟩

/-- Ten stacks, whatever the client knows. -/
def tenStacks (known : Unit) (_ : Unit) : List SentItem × Unit :=
  (List.replicate 10 stack, known)

def everywhere (_ _ : UInt16) (_ : UInt8) : Option Unit := some ()

theorem descriptions_tenStacks (squares : List (Option Unit)) (h : ∀ tile ∈ squares, tile = some ()) :
    ((descriptions itemReader tenStacks () squares).map List.length).sum = 10 * squares.length := by
  induction squares with
  | nil => rfl
  | cons tile squares ih =>
    obtain rfl := h tile List.mem_cons_self
    have hrest := ih fun tile htile => h tile (List.mem_cons_of_mem _ htile)
    rw [descriptions, List.map_cons, List.sum_cons, List.length_cons]
    have hten : (tenStacks () ()).1.length = 10 := rfl
    rw [hten]
    have hknown : (tenStacks () ()).2 = () := rfl
    rw [hknown, hrest]
    omega

theorem GetMapDescription_decodes_square :
    ∃ bytes,
      (GetMapDescription itemReader tenStacks everywhere 100 100 groundFloor 1 1 () {}).body =
        ({} : NetworkMessage).body ++ bytes ∧
      decodeSquares itemReader ((floors groundFloor).length * (1 * 1)) bytes =
        some (descriptions itemReader tenStacks () (squares everywhere 100 100 groundFloor 1 1)) :=
  GetMapDescription_decodes 100 100 groundFloor 1 1 () NetworkMessage.writing_empty (by decide +kernel)

/-- A view of 18 columns and 14 rows from the ground floor, as it is sent at login. -/
theorem full_view_is_cut :
    ¬ ∃ bytes,
      (GetMapDescription itemReader tenStacks everywhere 100 100 groundFloor 18 14 () {}).body =
        ({} : NetworkMessage).body ++ bytes ∧
      decodeSquares itemReader ((floors groundFloor).length * (18 * 14)) bytes =
        some (descriptions itemReader tenStacks () (squares everywhere 100 100 groundFloor 18 14)) := by
  rintro ⟨bytes, hbody, hdecode⟩
  have hwriting : (GetMapDescription itemReader tenStacks everywhere 100 100 groundFloor 18 14 () {}).Writing :=
    NetworkMessage.writing_empty.adds _
  obtain ⟨hposition, hroom⟩ := hwriting
  have hlength := congrArg List.length hbody
  rw [NetworkMessage.length_body, NetworkMessage.body_empty, List.nil_append] at hlength
  have hlist := decodeSquares_length _ _ _ hdecode
  rw [descriptions_tenStacks, length_squares] at hlist
  · have hfloors : (floors groundFloor).length = 8 := rfl
    have hmax : maxBodyLength = 24576 := rfl
    omega
  · intro tile htile
    unfold squares at htile
    simp only [List.mem_flatMap, List.mem_map] at htile
    obtain ⟨nz, -, nx, -, ny, -, rfl⟩ := htile
    rfl

end Items

end TibiaServer.Protocol
