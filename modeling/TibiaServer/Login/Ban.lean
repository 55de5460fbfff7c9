import Mathlib.Data.List.Chain
import TibiaServer.Login.LoginQueue
/-!
# Connection attempts

`Ban::acceptConnection` counts the attempts of an address that follow within five seconds.  Six
of them in quick succession get the address blocked.  Whatever happened before, one of seven
quick attempts is refused, and an address that leaves half a second between its attempts is
never refused (`acceptConnection_throttles`).
-/

namespace TibiaServer.Login

structure ConnectBlock where
  lastAttempt : Size
  blockTime : Size
  count : BitVec 32
  deriving DecidableEq

/-- `ipConnectMap` -/
abbrev IpConnectMap := BitVec 32 → Option ConnectBlock

/-- An attempt of an address that is in the map. -/
def ConnectBlock.attempt (connectBlock : ConnectBlock) (currentTime : Size) :
    Bool × ConnectBlock :=
  if connectBlock.blockTime > currentTime then
    (false, { connectBlock with blockTime := connectBlock.blockTime + 250 })
  else
    let timeDiff := (currentTime - connectBlock.lastAttempt).toInt
    let connectBlock := { connectBlock with lastAttempt := currentTime }
    if timeDiff ≤ 5000 then
      let connectBlock := { connectBlock with count := connectBlock.count + 1 }
      if connectBlock.count > 5 then
        let connectBlock := { connectBlock with count := 0 }
        if timeDiff ≤ 500 then (false, { connectBlock with blockTime := currentTime + 3000 })
        else (true, connectBlock)
      else (true, connectBlock)
    else (true, { connectBlock with count := 1 })

/-- What the map holds of an address after an attempt of it. -/
def attempt (connectBlock : Option ConnectBlock) (currentTime : Size) : Bool × ConnectBlock :=
  match connectBlock with
  | none => (true, ⟨currentTime, 0, 1⟩)
  | some connectBlock => connectBlock.attempt currentTime

/-- `Ban::acceptConnection` -/
def acceptConnection (ipConnectMap : IpConnectMap) (clientip : BitVec 32) (time : Time) :
    Bool × IpConnectMap :=
  let (accepted, connectBlock) := attempt (ipConnectMap clientip) time.toSize
  (accepted, Function.update ipConnectMap clientip (some connectBlock))

/-- The attempts of one address among the calls, with the answers that it gets. -/
def attempts (clientip : BitVec 32) : IpConnectMap → List (BitVec 32 × Time) → List (Time × Bool)
  | _, [] => []
  | ipConnectMap, (ip, time) :: calls =>
    let (accepted, ipConnectMap) := acceptConnection ipConnectMap ip time
    if ip = clientip then (time, accepted) :: attempts clientip ipConnectMap calls
    else attempts clientip ipConnectMap calls

/-! ## One address -/

/-- The attempts of an address by itself. -/
def attemptsOf : Option ConnectBlock → List Time → List (Time × Bool)
  | _, [] => []
  | connectBlock, time :: times =>
    (time, (attempt connectBlock time.toSize).1) ::
      attemptsOf (some (attempt connectBlock time.toSize).2) times

/-- What the map holds after attempts. -/
def attemptAll (connectBlock : Option ConnectBlock) (times : List Time) : Option ConnectBlock :=
  times.foldl (fun connectBlock time => some (attempt connectBlock time.toSize).2) connectBlock

/-- Other addresses do not matter. -/
theorem attempts_eq (clientip : BitVec 32) (ipConnectMap : IpConnectMap)
    (calls : List (BitVec 32 × Time)) :
    attempts clientip ipConnectMap calls =
      attemptsOf (ipConnectMap clientip) ((calls.filter (·.1 = clientip)).map Prod.snd) := by
  induction calls generalizing ipConnectMap with
  | nil => rfl
  | cons call calls ih =>
    obtain ⟨ip, time⟩ := call
    rw [attempts, acceptConnection]
    by_cases hip : ip = clientip
    · subst hip
      rw [List.filter_cons_of_pos (by simp)]
      simp only [if_true, ih, Function.update_self, List.map_cons, attemptsOf]
    · rw [List.filter_cons_of_neg (by simpa using hip)]
      simp only [if_neg hip, ih, Function.update_of_ne (Ne.symm hip)]

theorem attemptsOf_append (connectBlock : Option ConnectBlock) (xs ys : List Time) :
    attemptsOf connectBlock (xs ++ ys) =
      attemptsOf connectBlock xs ++ attemptsOf (attemptAll connectBlock xs) ys := by
  induction xs generalizing connectBlock with
  | nil => rfl
  | cons x xs ih =>
    rw [List.cons_append, attemptsOf, attemptsOf, ih]
    rfl

theorem map_fst_attemptsOf (connectBlock : Option ConnectBlock) (times : List Time) :
    (attemptsOf connectBlock times).map Prod.fst = times := by
  induction times generalizing connectBlock with
  | nil => rfl
  | cons time times ih => rw [attemptsOf, List.map_cons, ih]

/-- A stretch of the attempts is made from some state that earlier ones have left. -/
theorem attemptsOf_middle {connectBlock : Option ConnectBlock} {times : List Time}
    {before middle after : List (Time × Bool)}
    (h : attemptsOf connectBlock times = before ++ middle ++ after) :
    middle = attemptsOf (attemptAll connectBlock (before.map Prod.fst)) (middle.map Prod.fst) := by
  have htimes : times = before.map Prod.fst ++ middle.map Prod.fst ++ after.map Prod.fst := by
    rw [← List.map_append, ← List.map_append, ← h, map_fst_attemptsOf]
  rw [htimes, attemptsOf_append, attemptsOf_append] at h
  have hlength : ∀ (b : Option ConnectBlock) (l : List (Time × Bool)),
      (attemptsOf b (l.map Prod.fst)).length = l.length := by
    intro b l
    rw [← List.length_map Prod.fst, map_fst_attemptsOf, List.length_map]
  obtain ⟨hstart, -⟩ := List.append_inj h (by simp only [List.length_append, hlength])
  exact (List.append_inj hstart (hlength _ _)).2.symm

/-! ## One attempt -/

theorem toInt_sub_toSize {s t : Time} (h : s ≤ t) :
    (t.toSize - s.toSize).toInt = (t : ℤ) - (s : ℤ) := by
  have hlt := t.isLt
  have hle : (s : ℕ) ≤ t := h
  have hnat : (t.toSize - s.toSize).toNat = (t : ℕ) - s := by
    rw [BitVec.toNat_sub, toNat_toSize, toNat_toSize]
    omega
  rw [BitVec.toInt_eq_toNat_of_lt (by omega), hnat]
  omega

/-- The count never passes five. -/
theorem count_attempt {connectBlock : Option ConnectBlock} (time : Size)
    (h : ∀ b ∈ connectBlock, b.count ≤ 5) : (attempt connectBlock time).2.count ≤ 5 := by
  have hzero : (0 : BitVec 32) ≤ 5 := by decide
  have hone : (1 : BitVec 32) ≤ 5 := by decide
  cases connectBlock with
  | none => exact hone
  | some b =>
    unfold attempt ConnectBlock.attempt
    simp only
    split
    next => exact h b rfl
    next =>
      split
      next =>
        split
        next => split <;> exact hzero
        next hcount => exact BitVec.not_lt.mp hcount
      next => exact hone

theorem count_attemptAll (times : List Time) {connectBlock : Option ConnectBlock}
    (h : ∀ b ∈ connectBlock, b.count ≤ 5) : ∀ b ∈ attemptAll connectBlock times, b.count ≤ 5 := by
  induction times generalizing connectBlock with
  | nil => exact h
  | cons time times ih =>
    apply ih
    intro b hb
    obtain rfl := Option.some.inj hb
    exact count_attempt time.toSize h

/-- An attempt that is accepted is remembered as the last. -/
theorem ConnectBlock.lastAttempt_of_accepted {b : ConnectBlock} {time : Size}
    (h : (b.attempt time).1 = true) : (b.attempt time).2.lastAttempt = time := by
  unfold attempt at h ⊢
  simp only at h ⊢
  split_ifs at h ⊢ <;> rfl

theorem lastAttempt_attempt {connectBlock : Option ConnectBlock} {time : Size}
    (h : (attempt connectBlock time).1 = true) :
    (attempt connectBlock time).2.lastAttempt = time := by
  cases connectBlock with
  | none => rfl
  | some b => exact ConnectBlock.lastAttempt_of_accepted h

/-- A quick attempt that is accepted counts. -/
theorem count_of_quick {b : ConnectBlock} {s t : Time} (hlast : b.lastAttempt = s.toSize)
    (hle : s ≤ t) (hquick : (t : ℕ) ≤ s + 500) (h : (b.attempt t.toSize).1 = true) :
    (b.attempt t.toSize).2.count = b.count + 1 ∧ b.count + 1 ≤ 5 := by
  have hdiff := toInt_sub_toSize hle
  unfold ConnectBlock.attempt at h ⊢
  simp only [hlast, hdiff] at h ⊢
  rw [if_pos (show (t : ℤ) - s ≤ 5000 by omega), if_pos (show (t : ℤ) - s ≤ 500 by omega)] at h ⊢
  split_ifs at h ⊢ with hblocked hcount
  exact ⟨rfl, BitVec.not_lt.mp hcount⟩

/-- Without a block an attempt after half a second is accepted, and blocks nothing. -/
theorem attempt_of_slow {b : ConnectBlock} {s t : Time} (hlast : b.lastAttempt = s.toSize)
    (hblock : b.blockTime = 0) (hslow : (s : ℕ) + 500 < t) :
    (b.attempt t.toSize).1 = true ∧ (b.attempt t.toSize).2.blockTime = 0 := by
  have hle : s ≤ t := Fin.le_def.mpr (by omega)
  have hdiff := toInt_sub_toSize hle
  have hfree : ¬(0 : Size) > t.toSize := BitVec.not_lt_zero
  unfold ConnectBlock.attempt
  simp only [hlast, hblock, hdiff, hfree, if_false]
  rw [if_neg (show ¬(t : ℤ) - s ≤ 500 by omega)]
  split_ifs <;> exact ⟨rfl, rfl⟩

/-! ## Many attempts -/

/-- Quick attempts that are all accepted are five at most, less those counted before. -/
theorem length_of_quick {times : List Time} {b : ConnectBlock} {s : Time}
    (hlast : b.lastAttempt = s.toSize) (hcount : b.count ≤ 5)
    (hsorted : (s :: times).Pairwise (· ≤ ·))
    (hquick : (s :: times).IsChain fun s t : Time => (t : ℕ) ≤ s + 500)
    (h : ∀ x ∈ attemptsOf (some b) times, x.2 = true) : b.count.toNat + times.length ≤ 5 := by
  induction times generalizing b s with
  | nil => exact BitVec.le_def.mp hcount
  | cons t times ih =>
    obtain ⟨hnear, hrest⟩ := List.isChain_cons_cons.mp hquick
    obtain ⟨hle, hsorted⟩ := List.pairwise_cons.mp hsorted
    rw [attemptsOf] at h
    have hfirst : (b.attempt t.toSize).1 = true := h _ List.mem_cons_self
    obtain ⟨hup, hfive⟩ := count_of_quick hlast (hle t List.mem_cons_self) hnear hfirst
    have hmore := ih (ConnectBlock.lastAttempt_of_accepted hfirst) (by rwa [hup]) hsorted hrest
      fun x hx => h x (List.mem_cons_of_mem _ hx)
    have hnat : (b.count + 1).toNat = b.count.toNat + 1 := by
      rw [BitVec.toNat_add]
      have hle := BitVec.le_def.mp hcount
      exact Nat.mod_eq_of_lt (Nat.lt_of_le_of_lt (Nat.add_le_add_right hle 1) (by decide))
    rw [hup, hnat] at hmore
    rw [List.length_cons]
    omega

/-- Slow attempts are all accepted. -/
theorem accepted_of_slow {times : List Time} {b : ConnectBlock} {s : Time}
    (hlast : b.lastAttempt = s.toSize) (hblock : b.blockTime = 0)
    (hslow : (s :: times).IsChain fun s t : Time => (s : ℕ) + 500 < t) :
    ∀ x ∈ attemptsOf (some b) times, x.2 = true := by
  induction times generalizing b s with
  | nil => exact fun x hx => absurd hx List.not_mem_nil
  | cons t times ih =>
    obtain ⟨hfar, hrest⟩ := List.isChain_cons_cons.mp hslow
    obtain ⟨haccepted, hfree⟩ := attempt_of_slow hlast hblock hfar
    have hmore := ih (ConnectBlock.lastAttempt_of_accepted haccepted) hfree hrest
    intro x hx
    rw [attemptsOf] at hx
    rcases List.mem_cons.mp hx with rfl | hx
    · exact haccepted
    · exact hmore x hx

/-- Among seven attempts in quick succession one is refused, in every history of calls; an
address whose attempts are far apart is never refused. -/
theorem acceptConnection_throttles (clientip : BitVec 32) (calls : List (BitVec 32 × Time))
    (h : (calls.map Prod.snd).Pairwise (· ≤ ·)) :
    (∀ before seven after, attempts clientip (fun _ => none) calls = before ++ seven ++ after →
      seven.length = 7 → (seven.IsChain fun x y : Time × Bool => (y.1 : ℕ) ≤ x.1 + 500) →
        ∃ x ∈ seven, x.2 = false) ∧
      ((attempts clientip (fun _ => none) calls).IsChain (fun x y : Time × Bool => (x.1 : ℕ) + 500 < y.1) →
        ∀ x ∈ attempts clientip (fun _ => none) calls, x.2 = true) := by
  rw [attempts_eq]
  have hsorted : ((calls.filter (·.1 = clientip)).map Prod.snd).Pairwise (· ≤ ·) :=
    h.sublist (List.Sublist.map _ List.filter_sublist)
  generalize (calls.filter (·.1 = clientip)).map Prod.snd = times at hsorted
  constructor
  · intro before seven after hsplit hseven hquick
    by_contra hnone
    have haccepted : ∀ x ∈ seven, x.2 = true := by
      intro x hx
      cases hx2 : x.2 with
      | true => rfl
      | false => exact absurd ⟨x, hx, hx2⟩ hnone
    have hmiddle := attemptsOf_middle hsplit
    have hbefore : ∀ b ∈ attemptAll none (before.map Prod.fst), b.count ≤ 5 :=
      count_attemptAll (before.map Prod.fst) (by simp)
    generalize attemptAll none (before.map Prod.fst) = state at hmiddle hbefore
    have hmonotone : (seven.map Prod.fst).Pairwise (· ≤ ·) := by
      rw [← map_fst_attemptsOf none times, hsplit, List.map_append, List.map_append] at hsorted
      exact (List.pairwise_append.mp (List.pairwise_append.mp hsorted).1).2.1
    have hchain : (seven.map Prod.fst).IsChain fun s t : Time => (t : ℕ) ≤ s + 500 := by
      rw [List.isChain_map]
      exact hquick
    rw [← List.length_map Prod.fst] at hseven
    generalize seven.map Prod.fst = quick at hmiddle hmonotone hchain hseven
    subst hmiddle
    cases quick with
    | nil => cases hseven
    | cons t quick =>
        rw [attemptsOf] at haccepted
        have hfirst := haccepted _ List.mem_cons_self
        have hfive := length_of_quick (lastAttempt_attempt hfirst)
          (count_attempt t.toSize hbefore) hmonotone hchain
          fun x hx => haccepted x (List.mem_cons_of_mem _ hx)
        rw [List.length_cons] at hseven
        omega
  · intro hslow
    have hchain : times.IsChain fun s t : Time => (s : ℕ) + 500 < t := by
      rw [← map_fst_attemptsOf none times, List.isChain_map]
      exact hslow
    cases times with
    | nil => exact fun x hx => absurd hx List.not_mem_nil
    | cons t times =>
        have hmore := accepted_of_slow (b := ⟨t.toSize, 0, 1⟩) rfl rfl hchain
        intro x hx
        rcases List.mem_cons.mp hx with rfl | hx
        · rfl
        · exact hmore x hx

/-- Two addresses in turn, seven times every tenth of a second. -/
def busySecond : List (BitVec 32 × Time) :=
  (List.range 7).flatMap fun i => [(1, Fin.ofNat _ (100 * i)), (2, Fin.ofNat _ (100 * i))]

theorem busySecond_throttled :
    ∃ x ∈ attempts 1 (fun _ => none) busySecond, x.2 = false :=
  (acceptConnection_throttles 1 busySecond (by decide)).1 [] _ [] (List.append_nil _).symm
    (by decide) (by decide)

end TibiaServer.Login
