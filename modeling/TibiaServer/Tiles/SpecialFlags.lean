import TibiaServer.Tiles.Tile
/-!
# The special flags of a tile

`resetTileFlags` looks for something else that has the property only where the property is
in the way.  The flag of a teleport, a depot or a floor change goes with the first item that
has it, whatever else stands on the tile.  So these flags are exact as long as no call takes
away an item whose flag something that stays needs.
-/

namespace TibiaServer.Tiles

open TibiaServer.Cylinders (ItemRef)

inductive SpecialFlag
  | TELEPORT
  | MAGICFIELD
  | MAILBOX
  | TRASHHOLDER
  | BED
  | DEPOT
  | SUPPORTS_HANGABLE
  /-- The seven flags below `TILESTATE_PROTECTIONZONE`. -/
  | FLOORCHANGE (i : Fin 7)
  deriving DecidableEq, Repr

namespace SpecialFlag

def bit : SpecialFlag → ℕ
  | TELEPORT => 11
  | MAGICFIELD => 12
  | MAILBOX => 13
  | TRASHHOLDER => 14
  | BED => 15
  | DEPOT => 16
  | SUPPORTS_HANGABLE => 23
  | FLOORCHANGE i => i

def flag : SpecialFlag → BitVec 32
  | TELEPORT => TILESTATE_TELEPORT
  | MAGICFIELD => TILESTATE_MAGICFIELD
  | MAILBOX => TILESTATE_MAILBOX
  | TRASHHOLDER => TILESTATE_TRASHHOLDER
  | BED => TILESTATE_BED
  | DEPOT => TILESTATE_DEPOT
  | SUPPORTS_HANGABLE => TILESTATE_SUPPORTS_HANGABLE
  | FLOORCHANGE i => .twoPow 32 i

variable (items : ℕ → ItemType) (item : Item) (flags : BitVec 32)

/-- What `setTileFlags` asks for the flag. -/
def provides : SpecialFlag → Item → Bool
  | TELEPORT, item => item.itemClass = .Teleport
  | MAGICFIELD, item => item.getMagicField
  | MAILBOX, item => item.itemClass = .Mailbox
  | TRASHHOLDER, item => item.itemClass = .TrashHolder
  | BED, item => item.itemClass = .BedItem true || item.itemClass = .BedItem false
  | DEPOT, item => item.itemClass = .DepotLocker
  | SUPPORTS_HANGABLE, item => item.hasProperty items .CONST_PROP_SUPPORTHANGABLE
  | FLOORCHANGE i, item => (item.type items).floorChange.getLsbD i

/-- What `resetTileFlags` asks for the flag. -/
def clearedBy : SpecialFlag → Item → Bool
  | FLOORCHANGE _, item => (item.type items).floorChange ≠ 0
  | f, item => f.provides items item

/-- A floor change is set only where there is none. -/
def accepts : SpecialFlag → BitVec 32 → Bool
  | FLOORCHANGE _, flags => !hasFlag flags TILESTATE_FLOORCHANGE
  | _, _ => true

theorem bit_lt (f : SpecialFlag) : f.bit < 32 := by
  cases f with
  | FLOORCHANGE i => exact i.isLt.trans (by decide)
  | _ => decide

theorem hasFlag_eq_getLsbD (f : SpecialFlag) : hasFlag flags f.flag = flags.getLsbD f.bit := by
  have hflag : f.flag = .twoPow 32 f.bit := by
    cases f <;> rfl
  rw [hflag]
  exact hasFlag_twoPow f.bit_lt flags

theorem getLsbD_floorChange (type : ItemType) {k : ℕ} (hk : 8 ≤ k) :
    type.floorChange.getLsbD k = false := by
  have hpow : 2 ^ 8 ≤ 2 ^ k := Nat.pow_le_pow_right (by decide) hk
  exact Nat.testBit_lt_two_pow (type.floorChange_byte.trans_le hpow)

theorem getLsbD_FLOORCHANGE (i : Fin 7) : TILESTATE_FLOORCHANGE.getLsbD i = true := by
  revert i
  decide

theorem getLsbD_twoPow_of_le (i : Fin 7) {k : ℕ} (hk : 7 ≤ k) :
    (BitVec.twoPow 32 k).getLsbD i = false := by
  have hne : k ≠ i := by omega
  simp [hne]

theorem floorChange_ne_zero {items : ℕ → ItemType} {item : Item} {i : Fin 7}
    (hbit : (FLOORCHANGE i).provides items item = true) :
    (item.type items).floorChange ≠ 0#32 := by
  intro hzero
  change (item.type items).floorChange.getLsbD i = true at hbit
  rw [hzero, BitVec.getLsbD_zero] at hbit
  exact nomatch hbit

theorem hasFlag_setTileFlags (f : SpecialFlag) :
    hasFlag (setTileFlags items item flags) f.flag =
      (hasFlag flags f.flag || (f.provides items item && f.accepts flags)) := by
  rw [hasFlag_eq_getLsbD, hasFlag_eq_getLsbD]
  unfold setTileFlags
  simp only [getLsbD_setIf, TILESTATE_IMMOVABLEBLOCKSOLID, TILESTATE_BLOCKPATH,
    TILESTATE_NOFIELDBLOCKPATH, TILESTATE_IMMOVABLENOFIELDBLOCKPATH, TILESTATE_TELEPORT,
    TILESTATE_MAGICFIELD, TILESTATE_MAILBOX, TILESTATE_TRASHHOLDER, TILESTATE_BLOCKSOLID,
    TILESTATE_BED, TILESTATE_DEPOT, TILESTATE_SUPPORTS_HANGABLE]
  cases f with
  | FLOORCHANGE i =>
    have hnonzero : (item.type items).floorChange.getLsbD i = true →
        (item.type items).floorChange ≠ 0#32 := floorChange_ne_zero (i := i)
    simp only [bit, provides, accepts, getLsbD_twoPow_of_le i, Nat.reduceLeDiff, Bool.and_false,
      Bool.or_false]
    cases hbit : (item.type items).floorChange.getLsbD i with
    | false => simp
    | true => simp [hnonzero hbit]
  | _ =>
    simp only [bit, getLsbD_floorChange, Nat.reduceLeDiff, Bool.and_false, Bool.or_false]
    simp [provides, accepts]

theorem hasFlag_resetTileFlags (others : ITEMPROPERTY → Bool) (f : SpecialFlag) :
    hasFlag (resetTileFlags items item flags others) f.flag =
      (hasFlag flags f.flag && !f.clearedBy items item) := by
  rw [hasFlag_eq_getLsbD, hasFlag_eq_getLsbD]
  unfold resetTileFlags
  simp only [getLsbD_resetIf f.bit_lt, TILESTATE_IMMOVABLEBLOCKSOLID,
    TILESTATE_BLOCKPATH, TILESTATE_NOFIELDBLOCKPATH, TILESTATE_IMMOVABLENOFIELDBLOCKPATH,
    TILESTATE_IMMOVABLEBLOCKPATH, TILESTATE_TELEPORT, TILESTATE_MAGICFIELD, TILESTATE_MAILBOX,
    TILESTATE_TRASHHOLDER, TILESTATE_BLOCKSOLID, TILESTATE_BED, TILESTATE_DEPOT,
    TILESTATE_SUPPORTS_HANGABLE]
  cases f with
  | FLOORCHANGE i =>
    simp only [bit, clearedBy, getLsbD_twoPow_of_le i, getLsbD_FLOORCHANGE, Nat.reduceLeDiff,
      Bool.and_false, Bool.and_true, Bool.not_false]
  | _ => simp [bit, clearedBy, provides, TILESTATE_FLOORCHANGE]

theorem hasFlag_FLOORCHANGE_iff :
    hasFlag flags TILESTATE_FLOORCHANGE = true ↔
      ∃ i : Fin 7, hasFlag flags (FLOORCHANGE i).flag = true := by
  simp only [hasFlag_eq_getLsbD, bit]
  have hword : hasFlag flags TILESTATE_FLOORCHANGE = true ↔
      flags &&& TILESTATE_FLOORCHANGE ≠ 0#32 := decide_eq_true_iff
  rw [hword]
  constructor
  · intro hne
    by_contra hnone
    apply hne
    ext i hi
    by_cases hsmall : i < 7
    · have hbit : flags.getLsbD i = false :=
        Bool.eq_false_iff.mpr fun hbit => hnone ⟨⟨i, hsmall⟩, hbit⟩
      rw [BitVec.getElem_and, ← BitVec.getLsbD_eq_getElem, hbit, Bool.false_and,
        BitVec.getElem_zero]
    · have hbit : TILESTATE_FLOORCHANGE.getLsbD i = false :=
        Nat.testBit_lt_two_pow (i := i) (x := 127) (by
          have hpow : 2 ^ 7 ≤ 2 ^ i := Nat.pow_le_pow_right (by decide) (by omega)
          omega)
      rw [BitVec.getElem_and, ← BitVec.getLsbD_eq_getElem (x := TILESTATE_FLOORCHANGE), hbit,
        Bool.and_false, BitVec.getElem_zero]
  · rintro ⟨i, hi⟩ hzero
    have hbit : (flags &&& TILESTATE_FLOORCHANGE).getLsbD i = false := by
      rw [hzero, BitVec.getLsbD_zero]
    rw [BitVec.getLsbD_and, hi, getLsbD_FLOORCHANGE] at hbit
    exact nomatch hbit

end SpecialFlag

/-! ## What goes and what comes -/

/-- What a call does with the flags: those of `gone` are reset, those of `comes` are set, and
`stays` is what stands on the tile all the while. -/
structure Exchange where
  gone : Option Item := none
  comes : Option Item := none
  stays : List Item

namespace Exchange

variable (types : ℕ → ItemType) (e : Exchange)

/-- Something that goes provides the flag. -/
def Gone (f : SpecialFlag) : Prop := ∃ item ∈ e.gone, f.provides types item = true

def Comes (f : SpecialFlag) : Prop := ∃ item ∈ e.comes, f.provides types item = true

def Stays (f : SpecialFlag) : Prop := ∃ item ∈ e.stays, f.provides types item = true

/-- All floor changes of the tile are reset. -/
def ResetsFloor : Prop := ∃ item ∈ e.gone, (item.type types).floorChange ≠ 0

/-- What stays has its flags all the same, and no floor change is added to another. -/
structure Keeps : Prop where
  shared : ∀ f, (∀ i, f ≠ .FLOORCHANGE i) → e.Gone types f → e.Stays types f → e.Comes types f
  reset : e.ResetsFloor types → ∀ i, e.Stays types (.FLOORCHANGE i) → e.Comes types (.FLOORCHANGE i)
  refused : ¬e.ResetsFloor types → (∃ i, e.Stays types (.FLOORCHANGE i)) →
    ∀ i, e.Comes types (.FLOORCHANGE i) → e.Stays types (.FLOORCHANGE i)

/-- The flags once those of `gone` are reset. -/
def cleared (others : ITEMPROPERTY → Bool) (flags : BitVec 32) : BitVec 32 :=
  e.gone.elim flags fun item => resetTileFlags types item flags others

/-- The flags once those of `comes` are set as well. -/
def settled (others : ITEMPROPERTY → Bool) (flags : BitVec 32) : BitVec 32 :=
  e.comes.elim (e.cleared types others flags) fun item =>
    setTileFlags types item (e.cleared types others flags)

variable {types e} {others : ITEMPROPERTY → Bool} {flags : BitVec 32} {f : SpecialFlag}

theorem hasFlag_cleared :
    hasFlag (e.cleared types others flags) f.flag = true ↔
      hasFlag flags f.flag = true ∧ ¬∃ item ∈ e.gone, f.clearedBy types item = true := by
  unfold cleared
  cases e.gone with
  | none => simp
  | some item => simp [SpecialFlag.hasFlag_resetTileFlags]

theorem hasFlag_settled :
    hasFlag (e.settled types others flags) f.flag = true ↔
      hasFlag (e.cleared types others flags) f.flag = true ∨
        e.Comes types f ∧ f.accepts (e.cleared types others flags) = true := by
  unfold settled Comes
  cases e.comes with
  | none => simp
  | some item => simp [SpecialFlag.hasFlag_setTileFlags]

/-- A flag that is no floor change is reset with what provides it. -/
theorem hasFlag_settled_of_ne (hf : ∀ i, f ≠ .FLOORCHANGE i) :
    hasFlag (e.settled types others flags) f.flag = true ↔
      (hasFlag flags f.flag = true ∧ ¬e.Gone types f) ∨ e.Comes types f := by
  have hcleared : (∃ item ∈ e.gone, f.clearedBy types item = true) ↔ e.Gone types f := by
    cases f with
    | FLOORCHANGE i => exact absurd rfl (hf i)
    | _ => exact Iff.rfl
  have haccepts : f.accepts (e.cleared types others flags) = true := by
    cases f with
    | FLOORCHANGE i => exact absurd rfl (hf i)
    | _ => rfl
  rw [hasFlag_settled, hasFlag_cleared, hcleared, haccepts, eq_self, and_true]

theorem hasFlag_settled_FLOORCHANGE (i : Fin 7) :
    hasFlag (e.settled types others flags) (SpecialFlag.FLOORCHANGE i).flag = true ↔
      (hasFlag flags (SpecialFlag.FLOORCHANGE i).flag = true ∧ ¬e.ResetsFloor types) ∨
        e.Comes types (.FLOORCHANGE i) ∧
          ¬∃ j : Fin 7, hasFlag flags (SpecialFlag.FLOORCHANGE j).flag = true ∧
            ¬e.ResetsFloor types := by
  have hcleared : ∀ j : Fin 7,
      hasFlag (e.cleared types others flags) (SpecialFlag.FLOORCHANGE j).flag = true ↔
        hasFlag flags (SpecialFlag.FLOORCHANGE j).flag = true ∧ ¬e.ResetsFloor types := by
    intro j
    rw [hasFlag_cleared]
    simp only [SpecialFlag.clearedBy, decide_eq_true_eq]
    rfl
  have haccepts : (SpecialFlag.FLOORCHANGE i).accepts (e.cleared types others flags) = true ↔
      ¬∃ j : Fin 7, hasFlag flags (SpecialFlag.FLOORCHANGE j).flag = true ∧
        ¬e.ResetsFloor types := by
    unfold SpecialFlag.accepts
    simp only [Bool.not_eq_true', ← Bool.not_eq_true, SpecialFlag.hasFlag_FLOORCHANGE_iff, hcleared]
  rw [hasFlag_settled, hcleared, haccepts]

theorem resetsFloor_of_gone {i : Fin 7} (h : e.Gone types (.FLOORCHANGE i)) :
    e.ResetsFloor types := by
  obtain ⟨item, hitem, hbit⟩ := h
  exact ⟨item, hitem, SpecialFlag.floorChange_ne_zero hbit⟩

end Exchange

namespace State

variable (types : ℕ → ItemType)

/-- The ground or an item of the tile provides the flag. -/
def Provided (s : State) (f : SpecialFlag) : Prop :=
  ∃ x ∈ s.things, f.provides types (s.item x) = true

/-- The special flags are those that are provided. -/
def Special (s : State) : Prop :=
  ∀ f : SpecialFlag, hasFlag s.tile.flags f.flag = true ↔ s.Provided types f

end State

namespace Exchange

/-- A step of a tile exchanges what the exchange says. -/
structure Performs (types : ℕ → ItemType) (e : Exchange) (s t : State) : Prop where
  before : ∀ f, s.Provided types f ↔ e.Gone types f ∨ e.Stays types f
  after : ∀ f, t.Provided types f ↔ e.Comes types f ∨ e.Stays types f
  flags : ∃ others, t.tile.flags = e.settled types others s.tile.flags

variable {types : ℕ → ItemType} {e : Exchange} {s t : State}

theorem Performs.special_iff (h : e.Performs types s t) (hs : s.Special types) :
    t.Special types ↔ e.Keeps types := by
  obtain ⟨others, hflags⟩ := h.flags
  have hplain : ∀ f : SpecialFlag, (∀ i, f ≠ .FLOORCHANGE i) →
      (hasFlag t.tile.flags f.flag = true ↔
        ((e.Gone types f ∨ e.Stays types f) ∧ ¬e.Gone types f) ∨ e.Comes types f) := by
    intro f hf
    rw [hflags, hasFlag_settled_of_ne hf, hs f, h.before f]
  have hfloor : ∀ i : Fin 7, hasFlag t.tile.flags (SpecialFlag.FLOORCHANGE i).flag = true ↔
      (e.Stays types (.FLOORCHANGE i) ∧ ¬e.ResetsFloor types) ∨
        e.Comes types (.FLOORCHANGE i) ∧
          ¬∃ j, e.Stays types (.FLOORCHANGE j) ∧ ¬e.ResetsFloor types := by
    have hstays : ∀ i : Fin 7, (hasFlag s.tile.flags (SpecialFlag.FLOORCHANGE i).flag = true ∧
        ¬e.ResetsFloor types) ↔ e.Stays types (.FLOORCHANGE i) ∧ ¬e.ResetsFloor types := by
      intro i
      have hgone : e.Gone types (.FLOORCHANGE i) → e.ResetsFloor types := resetsFloor_of_gone
      rw [hs, h.before]
      tauto
    intro i
    rw [hflags, hasFlag_settled_FLOORCHANGE, hstays i]
    simp only [hstays]
  constructor
  · intro ht
    refine ⟨fun f hf hgone hstays => ?_, fun hreset i hstays => ?_,
      fun hreset hfloors i hcomes => ?_⟩
    · have hflag := (ht f).mpr ((h.after f).mpr (.inr hstays))
      have hafter := (hplain f hf).mp hflag
      tauto
    · have hflag := (ht _).mpr ((h.after _).mpr (.inr hstays))
      have hafter := (hfloor i).mp hflag
      tauto
    · obtain ⟨j, hj⟩ := hfloors
      have hflag := (ht _).mpr ((h.after _).mpr (.inl hcomes))
      rcases (hfloor i).mp hflag with ⟨hi, -⟩ | ⟨-, hnone⟩
      · exact hi
      · exact absurd ⟨j, hj, hreset⟩ hnone
  · intro hkeeps f
    rw [h.after f]
    by_cases hf : ∀ i, f ≠ .FLOORCHANGE i
    · have hshared := hkeeps.shared f hf
      rw [hplain f hf]
      tauto
    · obtain ⟨i, hi⟩ := not_forall.mp hf
      rw [not_not.mp hi, hfloor]
      by_cases hreset : e.ResetsFloor types
      · have hcomes := hkeeps.reset hreset i
        simp only [hreset, not_true_eq_false, and_false, exists_false, not_false_eq_true,
          and_true, false_or]
        tauto
      · have hrefused := hkeeps.refused hreset
        simp only [hreset, not_false_eq_true, and_true]
        by_cases hany : ∃ j, e.Stays types (.FLOORCHANGE j)
        · have hcomes := hrefused hany i
          tauto
        · have hstays : ¬e.Stays types (.FLOORCHANGE i) := fun hi => hany ⟨i, hi⟩
          tauto

end Exchange

end TibiaServer.Tiles
