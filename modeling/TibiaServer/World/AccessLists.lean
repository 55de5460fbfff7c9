import Mathlib.Data.List.DropRight
/-!
# The access lists of a house

`parseList` reads a text line by line into players, guilds and expressions, and `isInList` asks
these for a player.  The answer does not depend on the order of the lines as long as every line
is read whole and kept (`isInList_iff`): an expression is dropped when the escaped form of an
earlier one is its text.
-/

namespace TibiaServer.World

/-- A `std::string`, a character for each byte. -/
abbrev Line := List Char

/-! ## Trimming -/

def trim_left (t : Char) (source : Line) : Line := source.dropWhile (· = t)

def trim_right (t : Char) (source : Line) : Line := (source.reverse.dropWhile (· = t)).reverse

def trimString (str : Line) : Line := trim_left ' ' (trim_right ' ' str)

def toLowerCaseString (source : Line) : Line := source.map Char.toLower

/-- `replaceString` for a sought string of one character. -/
def replaceString (str : Line) (sought : Char) (replacement : Line) : Line :=
  str.flatMap fun c => if c = sought then replacement else [c]

/-! ## Names -/

/-- The look-ups by name: the guid of an online player, the guid in the database and the id of a
guild, 0 where there is none. -/
structure NameLookups where
  getPlayerByName : Line → Option ℕ
  getGuidByName : Line → ℕ
  getGuildIdByName : Line → ℕ

/-- The part of `Player` that `isInList` reads.  A name read from the database has no null
character. -/
structure ListedPlayer where
  name : Line
  guid : ℕ
  guild : Option ℕ
  name_c_str : '\x00' ∉ name

/-- `list` is the text, and a pair of `regExList` is the text of the `std::regex` and the answer of
`isInList` for the names that it matches. -/
structure AccessList where
  list : Line := []
  playerList : List ℕ := []
  guildList : List ℕ := []
  expressionList : List Line := []
  regExList : List (Line × Bool) := []

namespace AccessList

section

variable (names : NameLookups)

def addPlayer (name : Line) (s : AccessList) : AccessList :=
  match names.getPlayerByName name with
  | some guid => { s with playerList := s.playerList.insert guid }
  | none =>
    let guid := names.getGuidByName name
    if guid ≠ 0 then { s with playerList := s.playerList.insert guid } else s

def addGuild (name : Line) (s : AccessList) : AccessList :=
  let guildId := names.getGuildIdByName name
  if guildId ≠ 0 then { s with guildList := s.guildList.insert guildId } else s

def metachars : Line := ['.', '[', '{', '}', '(', ')', '\\', '+', '|', '^', '$']

def outExp (expression : Line) : Line :=
  let outExp := expression.flatMap fun c => if c ∈ metachars then ['\\', c] else [c]
  replaceString (replaceString outExp '*' ['.', '*']) '?' ['.', '?']

/-- The `std::regex` of an escaped expression is well formed, so that nothing is caught. -/
def addExpression (expression : Line) (s : AccessList) : AccessList :=
  if expression ∈ s.expressionList then s
  else
    let outExp := outExp expression
    if outExp = [] then s
    else
      let s := { s with expressionList := s.expressionList ++ [outExp] }
      if outExp.head? = some '!' then
        if outExp.length > 1 then { s with regExList := (outExp.drop 1, false) :: s.regExList }
        else s
      else { s with regExList := s.regExList ++ [(outExp, true)] }

/-- The line that the loop of `parseList` adds, if any. -/
def readLine (line : Line) : Option Line :=
  let line := trimString line
  let line := trim_left '\t' line
  let line := trim_right '\t' line
  let line := trimString line
  if line = [] ∨ line.head? = some '#' ∨ line.length > 100 then none
  else some (toLowerCaseString line)

/-- The part of a line behind its first `@`. -/
def afterAt (line : Line) : Line := (line.dropWhile (· ≠ '@')).drop 1

def isGuild (line : Line) : Bool := line.contains '@'

def isExpression (line : Line) : Bool :=
  !isGuild line && (line.contains '!' || line.contains '*' || line.contains '?')

def addLine (s : AccessList) (line : Line) : AccessList :=
  if isGuild line then s.addGuild names (afterAt line)
  else if isExpression line then s.addExpression line
  else s.addPlayer names line

def parseList (list : Line) : AccessList :=
  ((list.splitOn '\n').filterMap readLine).foldl (addLine names) { list := list }

/-- `regex_match` is the regex engine, for the text of a regex. -/
def isInList (regex_match : Line → Line → Bool) (player : ListedPlayer) (s : AccessList) : Bool :=
  let name := (toLowerCaseString player.name).takeWhile (· ≠ '\x00')
  match s.regExList.find? fun it => regex_match it.1 name with
  | some it => it.2
  | none =>
    s.playerList.contains player.guid ||
      match player.guild with
      | some guild => s.guildList.contains guild
      | none => false

end

/-! ## The rule -/

/-- A pattern with `*` for any string and `?` for at most one character. -/
def globMatch : Line → Line → Bool
  | [], name => name.isEmpty
  | c :: pattern, name =>
    if c = '*' then name.tails.any (globMatch pattern)
    else if c = '?' then
      globMatch pattern name || (name.tail?).any (globMatch pattern)
    else
      match name with
      | [] => false
      | d :: name => d = c && globMatch pattern name

def isBlank (c : Char) : Bool := c = ' ' || c = '\t'

/-- The line without the spaces and tabs at its ends, in small letters. -/
def acceptedLine (line : Line) : Option Line :=
  let line := (line.dropWhile isBlank).rdropWhile isBlank
  if line = [] ∨ line.head? = some '#' ∨ line.length > 100 then none
  else some (toLowerCaseString line)

section

variable (names : NameLookups) (player : ListedPlayer)

/-- The guid that a plain line stands for. -/
def resolvePlayer (line : Line) : Option ℕ :=
  match names.getPlayerByName line with
  | some guid => some guid
  | none => if names.getGuidByName line ≠ 0 then some (names.getGuidByName line) else none

/-- A line `!` followed by a pattern that matches the name. -/
def Bars (line : Line) : Bool :=
  isExpression line && line.head? = some '!' && decide (line.length > 1) &&
    globMatch (line.drop 1) (toLowerCaseString player.name)

/-- Another line that lets the player in. -/
def Admits (line : Line) : Bool :=
  if isGuild line then
    names.getGuildIdByName (afterAt line) ≠ 0 &&
      player.guild = some (names.getGuildIdByName (afterAt line))
  else if isExpression line then
    line.head? ≠ some '!' && globMatch line (toLowerCaseString player.name)
  else resolvePlayer names line = some player.guid

def verdict (lines : List Line) : Bool :=
  !lines.any (Bars player) && lines.any (Admits names player)

/-- The answer for a text, by its set of accepted lines. -/
def rule (list : Line) : Bool :=
  verdict names player ((list.splitOn '\n').filterMap acceptedLine)

end

/-! ## Escaped expressions -/

theorem outExp_append (a b : Line) : outExp (a ++ b) = outExp a ++ outExp b := by
  simp only [outExp, replaceString, List.flatMap_append]

theorem outExp_singleton (c : Char) : outExp [c] =
    if c ∈ metachars then ['\\', c] else if c = '*' then ['.', '*']
    else if c = '?' then ['.', '?'] else [c] := by
  by_cases hmeta : c ∈ metachars
  · have hstar : c ≠ '*' := by rintro rfl; exact absurd hmeta (by decide)
    have hopt : c ≠ '?' := by rintro rfl; exact absurd hmeta (by decide)
    simp [outExp, replaceString, hmeta, hstar, hopt]
  · by_cases hstar : c = '*'
    · subst hstar
      decide
    · by_cases hopt : c = '?'
      · subst hopt
        decide
      · simp [outExp, replaceString, hmeta, hstar, hopt]

theorem outExp_cons (c : Char) (e : Line) : outExp (c :: e) = outExp [c] ++ outExp e :=
  outExp_append [c] e

theorem outExp_ne_nil {e : Line} (h : e ≠ []) : outExp e ≠ [] := by
  obtain ⟨c, e, rfl⟩ := List.exists_cons_of_ne_nil h
  rw [outExp_cons, outExp_singleton]
  split_ifs <;> simp

theorem outExp_bang (e : Line) : outExp ('!' :: e) = '!' :: outExp e := by
  rw [outExp_cons]
  rfl

/-- An escaped expression begins with `!` exactly if the expression does. -/
theorem outExp_head {e : Line} (h : e ≠ []) :
    (outExp e).head? = some '!' ↔ e.head? = some '!' := by
  obtain ⟨c, e, rfl⟩ := List.exists_cons_of_ne_nil h
  rw [outExp_cons, outExp_singleton]
  split_ifs with hmeta hstar hopt
  · have hbang : c ≠ '!' := by rintro rfl; exact absurd hmeta (by decide)
    simp [hbang]
  · simp [hstar]
  · simp [hopt]
  · simp

/-! ## What the parser holds -/

section

variable {names : NameLookups}

/-- The lists hold the lines. -/
structure Holds (names : NameLookups) (s : AccessList) (lines : List Line) : Prop where
  players : ∀ guid, guid ∈ s.playerList ↔ ∃ line ∈ lines,
    isGuild line = false ∧ isExpression line = false ∧ resolvePlayer names line = some guid
  guilds : ∀ guildId, guildId ∈ s.guildList ↔ ∃ line ∈ lines,
    isGuild line = true ∧ guildId ≠ 0 ∧ names.getGuildIdByName (afterAt line) = guildId
  expressions : s.expressionList = (lines.filter isExpression).map outExp
  regexes : ∃ barring letting : List Line,
    s.regExList = barring.map (·, false) ++ letting.map (·, true) ∧
    (∀ e, e ∈ barring ↔ ∃ line ∈ lines, isExpression line = true ∧ line.head? = some '!' ∧
      line.length > 1 ∧ e = outExp (line.drop 1)) ∧
    ∀ e, e ∈ letting ↔ ∃ line ∈ lines, isExpression line = true ∧ line.head? ≠ some '!' ∧
      e = outExp line

theorem holds_nil (list : Line) : Holds names { list := list } [] :=
  ⟨by simp, by simp, rfl, [], [], rfl, by simp, by simp⟩

theorem exists_mem_concat {lines : List Line} {line : Line} {P : Line → Prop} :
    (∃ l ∈ lines ++ [line], P l) ↔ (∃ l ∈ lines, P l) ∨ P line := by
  simp [or_and_right, exists_or]

theorem isExpression_of_isGuild {line : Line} (h : isGuild line = true) :
    isExpression line = false := by
  rw [isExpression, h]
  rfl

/-- A line that is no expression leaves the expressions as they are. -/
theorem Holds.concat_other {s s' : AccessList} {lines : List Line} {line : Line}
    (h : Holds names s lines) (hother : isExpression line = false)
    (hexpressions : s'.expressionList = s.expressionList) (hregexes : s'.regExList = s.regExList)
    (hplayers : ∀ guid, guid ∈ s'.playerList ↔ guid ∈ s.playerList ∨
      (isGuild line = false ∧ resolvePlayer names line = some guid))
    (hguilds : ∀ guildId, guildId ∈ s'.guildList ↔ guildId ∈ s.guildList ∨
      (isGuild line = true ∧ guildId ≠ 0 ∧ names.getGuildIdByName (afterAt line) = guildId)) :
    Holds names s' (lines ++ [line]) := by
  constructor
  · intro guid
    rw [exists_mem_concat, ← h.players, hplayers]
    simp only [hother, true_and]
  · intro guildId
    rw [exists_mem_concat, ← h.guilds, hguilds]
  · rw [hexpressions, h.expressions, List.filter_append, List.filter_singleton, hother]
    simp
  · obtain ⟨barring, letting, heq, hbarring, hletting⟩ := h.regexes
    refine ⟨barring, letting, hregexes.trans heq, ?_, ?_⟩
    · intro e
      rw [exists_mem_concat, ← hbarring]
      simp [hother]
    · intro e
      rw [exists_mem_concat, ← hletting]
      simp [hother]

theorem Holds.addGuild {s : AccessList} {lines : List Line} (h : Holds names s lines) {line : Line}
    (hguild : isGuild line = true) :
    Holds names (s.addGuild names (afterAt line)) (lines ++ [line]) := by
  have hother := isExpression_of_isGuild hguild
  rw [AccessList.addGuild]
  split_ifs with hid
  · refine h.concat_other hother rfl rfl ?_ ?_
    · simp [hguild]
    · intro guildId
      rw [List.mem_insert_iff, hguild]
      constructor
      · rintro (rfl | hold)
        · exact .inr ⟨rfl, hid, rfl⟩
        · exact .inl hold
      · rintro (hold | ⟨-, -, hid'⟩)
        · exact .inr hold
        · exact .inl hid'.symm
  · refine h.concat_other hother rfl rfl ?_ ?_
    · simp [hguild]
    · intro guildId
      have hno : ¬(guildId ≠ 0 ∧ names.getGuildIdByName (afterAt line) = guildId) := by
        rintro ⟨hne, rfl⟩
        exact hid hne
      simp [hno]

theorem Holds.addPlayer {s : AccessList} {lines : List Line} (h : Holds names s lines)
    {line : Line} (hguild : isGuild line = false) (hother : isExpression line = false) :
    Holds names (s.addPlayer names line) (lines ++ [line]) := by
  have hresolved : ∀ {s' : AccessList}, s'.guildList = s.guildList →
      s'.expressionList = s.expressionList → s'.regExList = s.regExList →
      (∀ guid, guid ∈ s'.playerList ↔ guid ∈ s.playerList ∨
        resolvePlayer names line = some guid) → Holds names s' (lines ++ [line]) := by
    intro s' hguilds hexpressions hregexes hplayers
    refine h.concat_other hother hexpressions hregexes ?_ ?_
    · simpa [hguild] using hplayers
    · simp [hguild, hguilds]
  rw [AccessList.addPlayer]
  cases honline : names.getPlayerByName line with
  | some guid =>
    refine hresolved rfl rfl rfl ?_
    intro guid'
    rw [List.mem_insert_iff, resolvePlayer, honline, Option.some_inj, or_comm, eq_comm]
  | none =>
    simp only
    split_ifs with hguid
    · refine hresolved rfl rfl rfl ?_
      intro guid'
      simp only [List.mem_insert_iff, resolvePlayer, honline, if_pos hguid, Option.some_inj]
      rw [or_comm, eq_comm]
    · refine hresolved rfl rfl rfl ?_
      simp [resolvePlayer, honline, hguid]

theorem Holds.addExpression {s : AccessList} {lines : List Line} (h : Holds names s lines)
    {line : Line} (hexpr : isExpression line = true) (hnew : line ∉ s.expressionList) :
    Holds names (s.addExpression line) (lines ++ [line]) := by
  have hguild : isGuild line = false := by
    by_contra hg
    rw [isExpression_of_isGuild (Bool.not_eq_false _ ▸ hg)] at hexpr
    exact nomatch hexpr
  have hne : line ≠ [] := by rintro rfl; exact nomatch hexpr
  have hfilter : (s.expressionList ++ [outExp line]) =
      ((lines ++ [line]).filter isExpression).map outExp := by
    rw [List.filter_append, List.filter_singleton, hexpr, List.map_append, h.expressions]
    rfl
  have hplayers : ∀ guid, guid ∈ s.playerList ↔ ∃ l ∈ lines ++ [line],
      isGuild l = false ∧ isExpression l = false ∧ resolvePlayer names l = some guid := by
    intro guid
    rw [exists_mem_concat, ← h.players]
    simp [hexpr]
  have hguilds : ∀ guildId, guildId ∈ s.guildList ↔ ∃ l ∈ lines ++ [line],
      isGuild l = true ∧ guildId ≠ 0 ∧ names.getGuildIdByName (afterAt l) = guildId := by
    intro guildId
    rw [exists_mem_concat, ← h.guilds]
    simp [hguild]
  obtain ⟨barring, letting, heq, hbarring, hletting⟩ := h.regexes
  simp only [AccessList.addExpression, if_neg hnew, if_neg (outExp_ne_nil hne), outExp_head hne]
  by_cases hbang : line.head? = some '!'
  · obtain ⟨rest, rfl⟩ : ∃ rest, line = '!' :: rest := by
      obtain ⟨c, rest, rfl⟩ := List.exists_cons_of_ne_nil hne
      exact ⟨rest, by rw [Option.some_inj.mp hbang]⟩
    have hlength : (outExp ('!' :: rest)).length > 1 ↔ ('!' :: rest).length > 1 := by
      rw [outExp_bang]
      cases rest with
      | nil => decide
      | cons c rest =>
        have hpos := List.length_pos_of_ne_nil (outExp_ne_nil (List.cons_ne_nil c rest))
        simp only [List.length_cons]
        omega
    rw [if_pos hbang]
    by_cases hlong : ('!' :: rest).length > 1
    · rw [if_pos (hlength.mpr hlong)]
      refine ⟨hplayers, hguilds, hfilter, outExp rest :: barring, letting, ?_, ?_, ?_⟩
      · rw [outExp_bang, heq]
        rfl
      · intro e
        have hpos : 0 < rest.length := Nat.lt_of_succ_lt_succ hlong
        rw [exists_mem_concat, ← hbarring, List.mem_cons, or_comm]
        simp [hexpr, hpos]
      · intro e
        rw [exists_mem_concat, ← hletting]
        simp [hbang]
    · rw [if_neg (mt hlength.mp hlong)]
      refine ⟨hplayers, hguilds, hfilter, barring, letting, heq, ?_, ?_⟩
      · intro e
        rw [exists_mem_concat, ← hbarring]
        have hno : ¬0 < rest.length := fun hpos => hlong (Nat.succ_lt_succ hpos)
        simp [hno]
      · intro e
        rw [exists_mem_concat, ← hletting]
        simp [hbang]
  · rw [if_neg hbang]
    refine ⟨hplayers, hguilds, hfilter, barring, letting ++ [outExp line], ?_, ?_, ?_⟩
    · rw [heq, List.map_append, List.append_assoc]
      rfl
    · intro e
      rw [exists_mem_concat, ← hbarring]
      simp [hbang]
    · intro e
      rw [exists_mem_concat, ← hletting, List.mem_append, List.mem_singleton]
      simp [hbang, hexpr]

/-- The lines that are kept, after earlier expressions with these escaped forms: an expression is
dropped when it is one of them. -/
def kept : List Line → List Line → List Line
  | _, [] => []
  | escaped, line :: lines =>
    if isExpression line then
      if line ∈ escaped then kept escaped lines
      else line :: kept (escaped ++ [outExp line]) lines
    else line :: kept escaped lines

theorem Holds.addLines {s : AccessList} {held : List Line} (h : Holds names s held)
    (lines : List Line) :
    Holds names (lines.foldl (addLine names) s) (held ++ kept s.expressionList lines) := by
  induction lines generalizing s held with
  | nil => simpa [kept] using h
  | cons line lines ih =>
    rw [List.foldl_cons, kept, addLine]
    by_cases hguild : isGuild line = true
    · have hother := isExpression_of_isGuild hguild
      have hstep := h.addGuild hguild
      have hsame : (s.addGuild names (afterAt line)).expressionList = s.expressionList := by
        rw [hstep.expressions, h.expressions, List.filter_append, List.filter_singleton, hother]
        simp
      have hall := ih hstep
      rw [hsame, List.append_assoc] at hall
      rw [if_pos hguild, hother]
      exact hall
    · rw [if_neg hguild]
      rw [Bool.not_eq_true] at hguild
      by_cases hexpr : isExpression line = true
      · rw [if_pos hexpr, if_pos hexpr]
        by_cases hdropped : line ∈ s.expressionList
        · rw [AccessList.addExpression, if_pos hdropped, if_pos hdropped]
          exact ih h
        · have hstep := h.addExpression hexpr hdropped
          have hnext : (s.addExpression line).expressionList =
              s.expressionList ++ [outExp line] := by
            rw [hstep.expressions, h.expressions, List.filter_append, List.filter_singleton,
              hexpr, List.map_append]
            rfl
          have hall := ih hstep
          rw [hnext, List.append_assoc] at hall
          rw [if_neg hdropped]
          exact hall
      · rw [if_neg hexpr, if_neg hexpr]
        rw [Bool.not_eq_true] at hexpr
        have hstep := h.addPlayer hguild hexpr
        have hsame : (s.addPlayer names line).expressionList = s.expressionList := by
          rw [hstep.expressions, h.expressions, List.filter_append, List.filter_singleton, hexpr]
          simp
        have hall := ih hstep
        rw [hsame, List.append_assoc] at hall
        exact hall

/-! ## What the parser answers -/

/-- Entries that bar stand before those that let in. -/
theorem find_entry (m : Line → Bool) (barring letting : List Line) (rest : Bool) :
    (match (barring.map (·, false) ++ letting.map (·, true)).find? fun it => m it.1 with
      | some it => it.2
      | none => rest) = (!barring.any m && (letting.any m || rest)) := by
  induction barring with
  | nil =>
    induction letting with
    | nil => rfl
    | cons e letting ih =>
      cases hm : m e
      · simpa [hm] using ih
      · simp [hm]
  | cons e barring ih =>
    cases hm : m e
    · simpa [hm] using ih
    · simp [hm]

variable {regex_match : Line → Line → Bool}

theorem toLower_ne_null {c : Char} (h : c ≠ '\x00') : c.toLower ≠ '\x00' := by
  intro hlower
  by_cases hupper : c.val ≥ 'A'.val ∧ c.val ≤ 'Z'.val
  · have hval : c.val + ('a'.val - 'A'.val) = 0 :=
      congrArg Char.val ((dif_pos hupper).symm.trans hlower)
    have hnat := congrArg UInt32.toNat hval
    have hle : 65 ≤ c.val.toNat ∧ c.val.toNat ≤ 90 := hupper
    rw [UInt32.toNat_add] at hnat
    have hshift : ('a'.val - 'A'.val).toNat = 32 := rfl
    have hzero : (0 : UInt32).toNat = 0 := rfl
    rw [hshift, hzero] at hnat
    omega
  · exact h ((dif_neg hupper).symm.trans hlower)

/-- The name has no null character, so that the whole name is compared. -/
theorem takeWhile_name (player : ListedPlayer) :
    (toLowerCaseString player.name).takeWhile (· ≠ '\x00') = toLowerCaseString player.name := by
  rw [List.takeWhile_eq_self_iff]
  intro c hc
  obtain ⟨d, hd, rfl⟩ := List.mem_map.mp hc
  have hnull : d ≠ '\x00' := fun heq => player.name_c_str (heq ▸ hd)
  exact decide_eq_true (toLower_ne_null hnull)

/-- The answer is the verdict on the lines that the lists hold. -/
theorem Holds.isInList_eq {s : AccessList} {lines : List Line} (h : Holds names s lines)
    (hregex : ∀ e name, regex_match (outExp e) name = globMatch e name) (player : ListedPlayer) :
    s.isInList regex_match player = verdict names player lines := by
  obtain ⟨barring, letting, heq, hbarring, hletting⟩ := h.regexes
  have hbars : (barring.any fun e => regex_match e (toLowerCaseString player.name)) =
      lines.any (Bars player) := by
    rw [Bool.eq_iff_iff, List.any_eq_true, List.any_eq_true]
    constructor
    · rintro ⟨e, he, hmatch⟩
      obtain ⟨line, hline, hexpr, hhead, hlength, rfl⟩ := (hbarring e).mp he
      rw [hregex] at hmatch
      refine ⟨line, hline, ?_⟩
      rw [Bars, hexpr, hmatch, decide_eq_true hhead, decide_eq_true hlength]
      rfl
    · rintro ⟨line, hline, hbar⟩
      simp only [Bars, Bool.and_eq_true, decide_eq_true_eq] at hbar
      obtain ⟨⟨⟨hexpr, hhead⟩, hlength⟩, hmatch⟩ := hbar
      refine ⟨outExp (line.drop 1), ?_, by rw [hregex]; exact hmatch⟩
      exact (hbarring _).mpr ⟨line, hline, hexpr, hhead, hlength, rfl⟩
  have hadmits : ((letting.any fun e => regex_match e (toLowerCaseString player.name)) ||
      (s.playerList.contains player.guid || match player.guild with
        | some guild => s.guildList.contains guild
        | none => false)) = lines.any (Admits names player) := by
    rw [Bool.eq_iff_iff, Bool.or_eq_true, Bool.or_eq_true, List.any_eq_true, List.any_eq_true]
    constructor
    · rintro (⟨e, he, hmatch⟩ | hplayer | hguild)
      · obtain ⟨line, hline, hexpr, hhead, rfl⟩ := (hletting e).mp he
        rw [hregex] at hmatch
        have hguild : isGuild line = false := by
          cases hg : isGuild line
          · rfl
          · rw [isExpression_of_isGuild hg] at hexpr
            exact nomatch hexpr
        exact ⟨line, hline, by simp [Admits, hguild, hexpr, hhead, hmatch]⟩
      · obtain ⟨line, hline, hguild, hexpr, hresolve⟩ :=
          (h.players _).mp (List.contains_iff_mem.mp hplayer)
        exact ⟨line, hline, by simp [Admits, hguild, hexpr, hresolve]⟩
      · cases hmember : player.guild with
        | none => rw [hmember] at hguild; exact nomatch hguild
        | some guild =>
          rw [hmember] at hguild
          obtain ⟨line, hline, hg, hne, hid⟩ :=
            (h.guilds _).mp (List.contains_iff_mem.mp hguild)
          exact ⟨line, hline, by simp [Admits, hg, hid, hne, hmember]⟩
    · rintro ⟨line, hline, hadmit⟩
      rw [Admits] at hadmit
      split_ifs at hadmit with hguild hexpr
      · simp only [Bool.and_eq_true, decide_eq_true_eq] at hadmit
        obtain ⟨hne, hmember⟩ := hadmit
        refine .inr (.inr ?_)
        rw [hmember]
        exact List.contains_iff_mem.mpr ((h.guilds _).mpr ⟨line, hline, hguild, hne, rfl⟩)
      · simp only [Bool.and_eq_true, decide_eq_true_eq] at hadmit
        refine .inl ⟨outExp line, ?_, by rw [hregex]; exact hadmit.2⟩
        exact (hletting _).mpr ⟨line, hline, hexpr, hadmit.1, rfl⟩
      · refine .inr (.inl (List.contains_iff_mem.mpr ((h.players _).mpr ⟨line, hline, ?_⟩)))
        rw [Bool.not_eq_true] at hguild hexpr
        exact ⟨hguild, hexpr, of_decide_eq_true hadmit⟩
  rw [isInList, takeWhile_name, heq]
  rw [verdict, ← hbars, ← hadmits]
  exact find_entry (fun e => regex_match e (toLowerCaseString player.name)) barring letting _

/-! ## The lines at fault -/

/-- The lines that are read whole and kept, the others as the rule reads them and as the lists
hold them. -/
structure Readings where
  right : List Line := []
  lost : List Line := []
  odd : List Line := []

/-- The readings of the lines of a text, after earlier expressions with these escaped forms. -/
def readings : List Line → List Line → Readings
  | _, [] => {}
  | escaped, line :: lines =>
    let held := kept escaped (readLine line).toList
    let r := readings (escaped ++ (held.filter isExpression).map outExp) lines
    if held = (acceptedLine line).toList then { r with right := held ++ r.right }
    else { r with lost := (acceptedLine line).toList ++ r.lost, odd := held ++ r.odd }

theorem kept_cons (escaped : List Line) (line : Line) (lines : List Line) :
    kept escaped (line :: lines) = kept escaped [line] ++
      kept (escaped ++ ((kept escaped [line]).filter isExpression).map outExp) lines := by
  rw [kept]
  by_cases hexpr : isExpression line = true
  · by_cases hdropped : line ∈ escaped
    · simp [kept, hexpr, hdropped]
    · simp [kept, hexpr, hdropped]
  · simp [kept, hexpr]

theorem any_kept (p : Line → Bool) (escaped lines : List Line) :
    (kept escaped (lines.filterMap readLine)).any p =
      ((readings escaped lines).right.any p || (readings escaped lines).odd.any p) := by
  induction lines generalizing escaped with
  | nil => rfl
  | cons line lines ih =>
    have hsplit : kept escaped ((line :: lines).filterMap readLine) =
        kept escaped (readLine line).toList ++
          kept (escaped ++ ((kept escaped (readLine line).toList).filter isExpression).map outExp)
            (lines.filterMap readLine) := by
      cases hread : readLine line with
      | none => simp [hread, kept]
      | some read =>
        rw [List.filterMap_cons, hread]
        exact kept_cons escaped read _
    rw [hsplit, List.any_append, ih, readings]
    split_ifs <;> simp only [List.any_append] <;>
      cases (kept escaped (readLine line).toList).any p <;> simp

theorem any_accepted (p : Line → Bool) (escaped lines : List Line) :
    (lines.filterMap acceptedLine).any p =
      ((readings escaped lines).right.any p || (readings escaped lines).lost.any p) := by
  induction lines generalizing escaped with
  | nil => rfl
  | cons line lines ih =>
    have hsplit : (line :: lines).filterMap acceptedLine =
        (acceptedLine line).toList ++ lines.filterMap acceptedLine := by
      cases haccept : acceptedLine line <;> simp [haccept]
    rw [hsplit, List.any_append, readings, ih (escaped ++
      ((kept escaped (readLine line).toList).filter isExpression).map outExp)]
    split_ifs with hsame
    · rw [hsame, List.any_append, Bool.or_assoc]
    · simp only [List.any_append]
      cases (acceptedLine line).toList.any p <;> simp

/-- The lines at fault make no difference: a line that is read right bars the player, or one lets
in and lost and odd lines bar alike, or these lines decide alike on their own. -/
def FaultsAgree (names : NameLookups) (player : ListedPlayer) (r : Readings) : Prop :=
  r.right.any (Bars player) = true ∨
    (r.right.any (Admits names player) = true ∧
      r.odd.any (Bars player) = r.lost.any (Bars player)) ∨
    (r.right.any (Admits names player) = false ∧
      verdict names player r.odd = verdict names player r.lost)

instance (names : NameLookups) (player : ListedPlayer) (r : Readings) :
    Decidable (FaultsAgree names player r) :=
  inferInstanceAs (Decidable (r.right.any _ = true ∨ _ ∧ _ ∨ _ ∧ _))

/-- The rule looks at the set of accepted lines only. -/
theorem rule_congr {list list' : Line} (player : ListedPlayer)
    (h : ∀ line, line ∈ (list.splitOn '\n').filterMap acceptedLine ↔
      line ∈ (list'.splitOn '\n').filterMap acceptedLine) :
    rule names player list = rule names player list' := by
  have hany : ∀ p : Line → Bool, ((list.splitOn '\n').filterMap acceptedLine).any p =
      ((list'.splitOn '\n').filterMap acceptedLine).any p := by
    intro p
    rw [Bool.eq_iff_iff, List.any_eq_true, List.any_eq_true]
    simp only [h]
  rw [rule, rule, verdict, verdict, hany, hany]

/-- The answer is that of the rule exactly if the lines at fault make no difference.  The rule
does not depend on the order and the number of the lines. -/
theorem isInList_iff (names : NameLookups) (player : ListedPlayer)
    (hregex : ∀ e name, regex_match (outExp e) name = globMatch e name) (list : Line) :
    ((parseList names list).isInList regex_match player = rule names player list ↔
      FaultsAgree names player (readings [] (list.splitOn '\n'))) ∧
    ∀ list', (∀ line, line ∈ (list.splitOn '\n').filterMap acceptedLine ↔
        line ∈ (list'.splitOn '\n').filterMap acceptedLine) →
      rule names player list = rule names player list' := by
  refine ⟨?_, fun list' => rule_congr player⟩
  have hholds : Holds names (parseList names list)
      (kept [] ((list.splitOn '\n').filterMap readLine)) := (holds_nil list).addLines _
  rw [hholds.isInList_eq hregex, rule, verdict, verdict, any_kept, any_kept,
    any_accepted _ [], any_accepted _ [], FaultsAgree, verdict, verdict]
  generalize readings [] (list.splitOn '\n') = r
  cases r.right.any (Bars player) <;> cases r.right.any (Admits names player) <;> simp

end

/-! ## A regex engine -/

/-- Regexes of escaped characters, `.*`, `.?` and other characters. -/
def simpleMatch : Line → Line → Bool
  | '\\' :: c :: e, name =>
    match name with
    | [] => false
    | d :: name => d = c && simpleMatch e name
  | '.' :: '*' :: e, name => name.tails.any (simpleMatch e)
  | '.' :: '?' :: e, name => simpleMatch e name || (name.tail?).any (simpleMatch e)
  | c :: e, name =>
    match name with
    | [] => false
    | d :: name => d = c && simpleMatch e name
  | [], name => name.isEmpty

theorem simpleMatch_outExp (e name : Line) : simpleMatch (outExp e) name = globMatch e name := by
  induction e generalizing name with
  | nil => rfl
  | cons c e ih =>
    have hsame : simpleMatch (outExp e) = globMatch e := funext ih
    rw [outExp_cons, outExp_singleton]
    by_cases hstar : c = '*'
    · subst hstar
      simp [metachars, simpleMatch, globMatch, hsame]
    · by_cases hopt : c = '?'
      · subst hopt
        simp [metachars, simpleMatch, globMatch, hsame]
      · by_cases hmeta : c ∈ metachars
        · cases name <;> simp [hmeta, simpleMatch, globMatch, hstar, hopt, ih]
        · have hback : c ≠ '\\' := by rintro rfl; exact hmeta (by decide)
          have hdot : c ≠ '.' := by rintro rfl; exact hmeta (by decide)
          cases name <;> simp [hmeta, simpleMatch, globMatch, hstar, hopt, hback, hdot, ih]

/-- Look-ups that find no one. -/
def nobody : NameLookups := ⟨fun _ => none, fun _ => 0, fun _ => 0⟩

def dotted : ListedPlayer := ⟨['A', '.', 'C'], 7, none, by decide⟩

/-- With lines that are all kept the answer is that of the rule. -/
theorem isInList_two_lines :
    (parseList nobody ['!', 'b', '*', '\n', 'a', '*']).isInList simpleMatch dotted =
      rule nobody dotted ['!', 'b', '*', '\n', 'a', '*'] :=
  (isInList_iff nobody dotted simpleMatch_outExp _).1.mpr (by decide)

/-- The escaped form of `a?` is `a.?`, so that this line is dropped after that one. -/
theorem second_line_dropped :
    (parseList nobody ['a', '?', '\n', 'a', '.', '?']).isInList simpleMatch dotted = false ∧
      rule nobody dotted ['a', '?', '\n', 'a', '.', '?'] = true ∧
      (parseList nobody ['a', '.', '?', '\n', 'a', '?']).isInList simpleMatch dotted = true := by
  decide

end AccessList

end TibiaServer.World
